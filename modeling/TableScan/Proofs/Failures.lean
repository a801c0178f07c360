import TableScan.Proofs.Replay

/-!
# Failures of filters

What becomes of a filter's failure.  Main statement: a pass of a cursor on a plan delivers the rows
that its filter keeps in the frames before the first one on which it fails, gives that failure once,
in the call that would have moved to a row of that frame or a later one, and then no more rows
(`Workshop.failure_surfaces_once`).
-/

namespace TableScan

variable {ω : Type}

/-! ## The first failure -/

/-- The failure that a verdict on a row of this frame gives rise to. -/
def Verdict.failure? (frame : Nat) : Verdict → Option Failure
  | keep | skip => none
  | fails text => some (.predicate frame text)
  | faults _ => some (.predicate frame Task.abandonedText)

/-- A sweep ends with the failure on the first row on which the verdict does not answer. -/
lemma Filter.failure?_sweep (verdict : RowView → Verdict) (o : Order) (v : RowView) (n frame : Nat) :
    ((ofVerdict verdict).sweep o v n ()).1.failure? frame =
      (o.items n).findSome? fun row => (verdict (v.atRow row)).failure? frame := by
  suffices hlast : ∀ left kept, left ≤ n →
      ((ofVerdict verdict).sweepLast o v n left kept ()).1.failure? frame =
        ((o.items n).drop (n - left)).findSome? fun row =>
          (verdict (v.atRow row)).failure? frame by
    simpa [sweep] using hlast n [] (Nat.le_refl n)
  intro left
  induction left with
  | zero =>
    intro kept _
    have hnil : (o.items n).drop n = [] :=
      List.drop_eq_nil_of_le (by simp [Order.items_eq_map])
    simp [hnil, sweepLast, Sweep.failure?]
  | succ left ih =>
    intro kept hle
    have hrow : n - (left + 1) + 1 = n - left := by omega
    rw [Order.drop_items (by omega), hrow, List.findSome?_cons]
    have hj : (ofVerdict verdict).judge (v.atRow (o.itemAt n (n - (left + 1)))) () =
        (verdict (v.atRow (o.itemAt n (n - (left + 1)))), ()) := rfl
    rw [sweepLast, hj]
    cases verdict (v.atRow (o.itemAt n (n - (left + 1)))) with
    | keep => exact ih _ (by omega)
    | skip => exact ih _ (by omega)
    | fails text => rfl
    | faults fault => rfl

lemma Itinerary.failure_andThen (i j : Itinerary) :
    (i.andThen j).failure = i.failure.or j.failure := by
  obtain ⟨rows, _ | f⟩ := i <;> rfl

namespace Tour

variable {T : Tour} {verdict : RowView → Verdict}

/-- The failure on the first row, in the order of the scan, on which a verdict does not answer. -/
def failure? (T : Tour) (verdict : RowView → Verdict) : Option Failure :=
  ((T.order.items T.count).flatMap T.visit).findSome? fun v => (verdict v).failure? v.frame

/-- What a verdict makes of a tour: the rows that it keeps, and the first failure. -/
def pass (T : Tour) (verdict : RowView → Verdict) : Itinerary :=
  { rows := T.reference verdict, failure := T.failure? verdict }

/-- A frame brings the failure on its first row on which the verdict does not answer. -/
lemma failure_leg (T : Tour) (verdict : RowView → Verdict) (j : Nat) :
    (T.leg (.ofVerdict verdict) () j).failure =
      (T.visit (T.frame j)).findSome? fun v => (verdict v).failure? v.frame := by
  rw [visit, List.findSome?_map]
  exact Filter.failure?_sweep verdict T.order (T.view.atFrame (T.frame j)) _ (T.frame j)

/-- What is ahead of a cursor whose filter judges the rows by themselves. -/
lemma ahead_ofVerdict (T : Tour) (verdict : RowView → Verdict) :
    T.ahead (.ofVerdict verdict) () 0 = T.pass verdict := by
  suffices hfailure : (T.ahead (.ofVerdict verdict) () 0).failure = T.failure? verdict by
    rw [pass, ← T.rows_ahead, ← hfailure]
  unfold ahead failure?
  rw [Order.items_eq_map, List.drop_zero, List.flatMap_map]
  induction List.range T.count with
  | nil => rfl
  | cons j l ih =>
    rw [List.map_cons, List.foldr_cons, Itinerary.failure_andThen, ih, failure_leg,
      List.flatMap_cons, List.findSome?_append]
    rfl

end Tour

/-! ## The answers of a pass -/

namespace Itinerary

/-- The answers along an itinerary: a row each, the failure once, and then that there are no more
rows, which is said `more` times. -/
def script (i : Itinerary) (more : Nat) : List (Except Stop Bool × Option RowView) :=
  i.rows.map (fun v => (.ok true, some v)) ++
    (i.failure.toList.map (fun f => (.error (.failed f), none)) ++
      List.replicate more (.ok false, none))

/-- What is left of an itinerary once its outcome is known: a failure before the first row has come
up then. -/
def left : Itinerary → Itinerary
  | ⟨[], _⟩ => nothing
  | i => i

lemma left_of_outcome {i : Itinerary} (h : i.outcome = .ok ()) : i.left = i := by
  obtain ⟨_ | ⟨v, rows⟩, _ | f⟩ := i
  · rfl
  · cases h
  · rfl
  · rfl

lemma left_of_outcome_ne {i : Itinerary} (h : i.outcome ≠ .ok ()) : i.left = nothing := by
  obtain ⟨_ | ⟨v, rows⟩, _ | f⟩ := i
  · rfl
  · rfl
  · exact absurd rfl h
  · exact absurd rfl h

/-- An itinerary gives its answers in the order of its script. -/
lemma answers_prefix {i : Itinerary} {k more : Nat} (h : k ≤ more) :
    i.answers k <+: i.script more := by
  induction k generalizing i more with
  | zero => exact List.nil_prefix
  | succ k ih =>
    obtain ⟨_ | ⟨v, rows⟩, failure⟩ := i
    · cases failure with
      | none =>
        obtain ⟨more, rfl⟩ := Nat.exists_eq_succ_of_ne_zero (Nat.ne_of_gt (Nat.lt_of_lt_of_le k.succ_pos h))
        exact List.prefix_cons_inj _ |>.2 (ih (i := nothing) (Nat.le_of_succ_le_succ h))
      | some f => exact List.prefix_cons_inj _ |>.2 (ih (i := nothing) (Nat.le_of_succ_le h))
    · exact List.prefix_cons_inj _ |>.2 (ih (i := ⟨rows, failure⟩) (Nat.le_of_succ_le h))

end Itinerary

namespace Workshop

variable {W V : Workshop ω} {H : List Place} {n plan : String} {hub : Nat}
  {R : Route Unit} {c : OpenCursor} {i : Itinerary} {as : List (Deed ω)} {p : Plan ω} {frames : List Frame}

/-- A deed with which a pass goes on: anything that is permitted, but as for this cursor only a
move to the next row. -/
def Continues (n : String) (W : Workshop ω) (a : Deed ω) : Prop :=
  W.Permits a ∧ (a.cursor? = some n → a = .next n)

/-- However a pass goes on, the cursor answers by the script of an itinerary. -/
def Recites (W : Workshop ω) (n : String) (i : Itinerary) : Prop :=
  ∀ as V, Run (Continues n) W as V → answers n W as <+: i.script (answers n W as).length

lemma Follows.recites (hW : W.Reached H) (hf : W.Follows n R (fun _ => ()) c i) :
    W.Recites n i := by
  intro as V hrun
  have hgo := hrun.imp (Q := GoesOn n fun _ => ()) fun V a ha => ⟨ha.1, V.spares_unit a, ha.2⟩
  have hprefix := Itinerary.answers_prefix (i := i) (Nat.le_refl (answers n W as).length)
  rwa [← hf.answers_eq hW hgo] at hprefix

/-- A pass of a cursor on a plan begins when the cursor is opened or starts over.  If it meets no
saturated ring, then the rows that its filter keeps before the first frame with a failure come
first, each in a call, then that failure, and no more rows from then on.  The call that begins the
pass gives the failure if no row comes before it. -/
theorem failure_surfaces_once {verdict : RowView → Verdict} (hW : W.Reached H)
    (hp : W.Permits (.openCursor plan n hub)) (hpl : W.plans.find? plan = some p)
    (hw : (p.source.supply W.engine.world).1 = .ok frames) (hfit : p.source.Fits frames)
    (hverdict : ∀ v w, (p.filter.judge v w).1 = verdict v) :
    (¬ Saturates ((Session.openCursor plan n hub).on W).1 →
      ((Session.openCursor plan n hub).on W).1 = ((p.tour frames).pass verdict).outcome) ∧
    (((Session.openCursor plan n hub).on W).1 = .ok () →
      (W.after (.openCursor plan n hub)).Recites n ((p.tour frames).pass verdict).left ∧
      ∀ as V, Run (fun V a => V.Permits a ∧ a ≠ .dropCursor n)
          (W.after (.openCursor plan n hub)) as V →
        V.hasMoved n = true → ¬ Saturates ((Session.rewindCursor n).on V).1 →
          ((Session.rewindCursor n).on V).1 = ((p.tour frames).pass verdict).outcome ∧
            (V.after (.rewindCursor n)).Recites n ((p.tour frames).pass verdict).left) := by
  have ho : W.Opening plan n hub p frames ⟨p.tour frames, .ofVerdict verdict, ()⟩ fun _ => () :=
    ⟨⟨H, hW⟩, hp, hpl, hw, hfit, rfl, Filter.shows_ofVerdict hverdict, fun _ => rfl,
      fun _ _ _ _ _ _ => leaves_unit .., fun _ _ _ _ _ => leaves_unit ..⟩
  obtain ⟨hout, hok⟩ := ho.follows
  rw [Tour.ahead_ofVerdict] at hout hok
  refine ⟨fun hsat => hout.resolve_left hsat, fun hopen => ?_⟩
  obtain ⟨c, hf⟩ := hok hopen
  have hreached : (W.after (.openCursor plan n hub)).Reached _ := hW.deed hp
  have hout : _ = ((p.tour frames).pass verdict).outcome := hout.resolve_left fun hsat => by
    obtain ⟨shard, waited, hsat⟩ := hsat
    cases hopen.symm.trans hsat
  refine ⟨?_, fun as V hrun hmoved hsat => ?_⟩
  · rw [Itinerary.left_of_outcome (hout.symm.trans hopen)]
    exact hf.recites hreached
  · have hrun := hrun.imp (Q := Admits n fun _ => ()) fun V a ha => ⟨ha.1, V.spares_unit a, ha.2⟩
    obtain ⟨c', i', hf'⟩ := hf.run hreached hrun
    obtain ⟨H', hV⟩ := hrun.reached (fun _ _ ha => ha.permits) hreached
    obtain ⟨F, h⟩ := hV.sound
    obtain ⟨hrewind, c'', i'', hf'', hwhole, hended⟩ :=
      hf'.rewind h ((hasMoved_iff hf'.cursor).1 hmoved)
    have hahead : Route.ahead ⟨p.tour frames, .ofVerdict verdict, ()⟩ =
        (p.tour frames).pass verdict := Tour.ahead_ofVerdict ..
    rw [hahead] at hrewind hwhole
    have hrewind := hrewind.resolve_left hsat
    refine ⟨hrewind, ?_⟩
    have hrecites := hf''.recites (hV.deed (a := .rewindCursor n) trivial)
    by_cases hbegins : ((Session.rewindCursor n).on V).1 = .ok ()
    · rwa [Itinerary.left_of_outcome (hrewind.symm.trans hbegins), ← hwhole hbegins]
    · -- the failure has come up at once, and the cursor is exhausted
      have hphase := hended hbegins
      have hnothing : i'' = .nothing := hf''.ahead_of_ended fun hc => by
        rcases hc with hc | hc <;> exact absurd (hphase.symm.trans hc) Phase.noConfusion
      rwa [Itinerary.left_of_outcome_ne (hrewind ▸ hbegins), ← hnothing]

/-- The verdict that refuses the rows of the second frame. -/
def refusal (v : RowView) : Verdict := if v.frame = 1 then .fails "refused" else .keep

/-- The deed that adds a plan on three frames of one row each, with this refusal. -/
def addRefusing : Deed Unit :=
  .addPlan "e" (plainSource [1, 1, 1]) { judge := fun v w => (refusal v, w) }

/-- The plan that is added so in a workshop without any. -/
def refusing : Plan Unit where
  source := plainSource [1, 1, 1]
  filter := { judge := fun v w => (refusal v, w) }
  dispatcher := { id := 1, reducer := .filtering .ascending }
  inbox := { id := 0 }

/-- The refusal comes up after the row of the first frame, and once more after the cursor has
started over. -/
theorem failure_surfaces_once_small :
    ∃ V : Workshop Unit, V = (small.after addRefusing).after (.openCursor "e" "c" 0) ∧
      V.Recites "c" ((refusing.tour (plainFrames [1, 1, 1])).pass refusal).left ∧
      (((V.after (.next "c")).after (.next "c")).after (.rewindCursor "c")).Recites "c"
        ((refusing.tour (plainFrames [1, 1, 1])).pass refusal).left ∧
      (answers "c" V [.next "c", .next "c", .next "c"]).map (·.1) =
        [.ok true, .error (.failed (.predicate 1 "refused")), .ok false] := by
  have hreached : (small.after addRefusing).Reached [] :=
    reached_small.deed (a := addRefusing) fun _ _ hc => nomatch hc
  have hfit : (plainSource [1, 1, 1]).Fits (plainFrames [1, 1, 1]) := by
    unfold Source.Fits
    decide +kernel
  have hopen : ((Session.openCursor "e" "c" 0).on (small.after addRefusing)).1 = .ok () := by
    decide +kernel
  have hp : (small.after addRefusing).Permits (.openCursor "e" "c" 0) :=
    ⟨fun _ _ hc => (nomatch hc), rfl, by decide⟩
  obtain ⟨hfirst, hagain⟩ :=
    (failure_surfaces_once (p := refusing) hreached hp rfl rfl hfit fun _ _ => rfl).2 hopen
  refine ⟨_, rfl, hfirst, (hagain [.next "c", .next "c"] _ (.cons ⟨trivial, nofun⟩
    (.cons ⟨trivial, nofun⟩ .nil)) (by decide +kernel) ?_).2, by decide +kernel⟩
  have hrewind : ((Session.rewindCursor "c").on ((((small.after addRefusing).after
      (.openCursor "e" "c" 0)).after (.next "c")).after (.next "c"))).1 = .ok () := by
    decide +kernel
  rw [hrewind]
  exact nofun

/-- A dispatcher of another ring may take away the slot of a frame with a failure: the slot is
published by hand, and the failure never comes up. -/
theorem suppresses_crossing :
    (∃ H, (furnished.after addRefusing).Reached H) ∧
      (furnished.after addRefusing).Permits (.openCursor "e" "c" 0) ∧
      ((Session.openCursor "e" "c" 0).on (furnished.after addRefusing)).1 = .ok () ∧
      ∃ as V, Run (fun V a => V.Tolerates a ∧ (a.cursor? = some "c" → a = .next "c"))
          ((furnished.after addRefusing).after (.openCursor "e" "c" 0)) as V ∧
        ¬ answers "c" ((furnished.after addRefusing).after (.openCursor "e" "c" 0)) as <+:
          ((refusing.tour (plainFrames [1, 1, 1])).pass refusal).left.script 3 := by
  obtain ⟨H, hfurnished⟩ := reached_furnished
  have hfree : furnished.Permits addRefusing :=
    free_of_sites (s := .ofPlan "f") (by decide +kernel) nofun
  refine ⟨⟨_, hfurnished.deed hfree⟩,
    ⟨free_of_sites (s := .ofPlan "f") (by decide +kernel) nofun, by decide +kernel,
      by decide +kernel⟩, by decide +kernel,
    crossing ++ [.claim 1 "h", .publishClaim "h", .reduce 1, .next "c", .next "c", .next "c"],
    _, .cons ⟨?_, nofun⟩ (.cons ⟨trivial, nofun⟩ (.cons ⟨?_, nofun⟩ (.cons ⟨trivial, nofun⟩
      (.cons ⟨?_, nofun⟩ (.cons ⟨trivial, nofun⟩ (.cons ⟨trivial, nofun⟩
        (.cons ⟨trivial, fun _ => rfl⟩ (.cons ⟨trivial, fun _ => rfl⟩
          (.cons ⟨trivial, fun _ => rfl⟩ .nil))))))))), fun h => ?_⟩
  · exact absurd (h.map (·.1)) (by decide +kernel)
  · exact available_of_sites (s := .ofPlan "e") (by decide +kernel) nofun nofun
  · exact ⟨freeInbox_of_sites (s := .ofPlan "e") (by decide +kernel) nofun, by decide +kernel⟩
  · show Register.find? _ "h" = none
    decide +kernel

end Workshop

end TableScan
