import TableScan.Proofs.Itineraries

/-!
# Followers

A follower is a cursor that reads a course known exactly, whatever is done in its workshop.  Main
statements: nothing that others do changes what is ahead of it (`Follows.others`), and its own
calls answer as its itinerary does (`Follows.next`, `Follows.rewind`).
-/

namespace TableScan

variable {ω σ : Type}

namespace Workshop

/-- A deed that is permitted, leaves alone what `π` shows, and does not let go of the cursor. -/
structure Admits (n : String) (π : ω → σ) (W : Workshop ω) (a : Deed ω) : Prop where
  permits : W.Permits a
  spares : W.Spares π a
  keeps : a ≠ .dropCursor n

/-! ## Answers -/

/-- The answer to a cursor's next call, with the row that the cursor has moved to. -/
def answer (W : Workshop ω) (n : String) : Except Stop Bool × Option RowView :=
  match (Session.next n).on W with
  | (.ok true, W') => (.ok true, (W'.cursors.find? n).map (·.cursor.view))
  | (r, _) => (r, none)

variable {W : Workshop ω} {n : String} {c : OpenCursor}

lemma answer_eq {s : Scan ω} (hc : W.cursors.find? n = some c)
    (hs : W.scan? c.site = some s) : W.answer n = Cursor.answer (c.cursor.next s) := by
  unfold answer Session.next
  rw [Session.on_onCursor hc hs]
  rcases c.cursor.next s with ⟨stop | _ | _, c', s'⟩
  · rfl
  · rfl
  · simp [Cursor.answer]

/-- Whether a cursor has moved and is not closed, so that it would start over. -/
def hasMoved (W : Workshop ω) (n : String) : Bool :=
  (W.cursors.find? n).any fun c => c.cursor.phase == .iterating || c.cursor.phase == .exhausted

lemma hasMoved_iff (hc : W.cursors.find? n = some c) :
    W.hasMoved n = true ↔ c.cursor.phase = .iterating ∨ c.cursor.phase = .exhausted := by
  simp [hasMoved, hc]

end Workshop

/-! ## Routes -/

/-- A tour and the filter that goes along, in the state in which it starts. -/
structure Route (σ : Type) where
  tour : Tour
  filter : Filter σ
  start : σ

/-- What is ahead at the start. -/
def Route.ahead (R : Route σ) : Itinerary := R.tour.ahead R.filter R.start 0

namespace Workshop

variable {W : Workshop ω} {F : List Lease} {H : List Place} {n plan : String} {hub : Nat}
  {R : Route σ} {π : ω → σ} {c : OpenCursor} {i : Itinerary} {a : Deed ω} {p : Plan ω}
  {frames : List Frame}

/-- A cursor follows a route, with the state of its filter in `π` of the world, and `i` is ahead
of it. -/
def Follows (W : Workshop ω) (n : String) (R : Route σ) (π : ω → σ) (c : OpenCursor)
    (i : Itinerary) : Prop :=
  ∃ (S : Course ω σ) (x : σ) (d : Dispatcher ω) (k : Inbox),
    S.Along R.tour R.filter R.start x ∧ S.shown = π ∧ W.Reader n S c d k ∧
      c.cursor.ahead R.tour R.filter x = i

namespace Follows

lemma cursor (hf : W.Follows n R π c i) : W.cursors.find? n = some c := by
  obtain ⟨S, x, d, k, -, -, hr, -⟩ := hf
  exact hr.cursor

/-- Nothing is ahead of a follower that has ended. -/
lemma ahead_of_ended (hf : W.Follows n R π c i) (hc : ¬ c.cursor.IsOpen) : i = .nothing := by
  obtain ⟨S, x, d, k, -, -, -, rfl⟩ := hf
  exact Cursor.ahead_of_ended (Cursor.ended_of_not_open hc)

/-- What others do leaves a follower where it is. -/
lemma others (h : W.Sound F H) (hf : W.Follows n R π c i) (hp : W.Permits a)
    (hsp : W.Spares π a) (hme : a.cursor? ≠ some n) : (W.after a).Follows n R π c i := by
  obtain ⟨S, x, d, k, hS, rfl, hr, hi⟩ := hf
  exact ⟨S, x, d, k, hS, rfl, hr.after hS.lawful h hp hsp hme, hi⟩

/-- A follower's next call gives the next answer of its itinerary. -/
lemma next (h : W.Sound F H) (hf : W.Follows n R π c i) :
    W.answer n = i.next.1 ∧ ∃ c', (W.after (.next n)).Follows n R π c' i.next.2 ∧
      (¬ c.cursor.IsOpen → c' = c) := by
  obtain ⟨S, x, d, k, hS, rfl, hr, rfl⟩ := hf
  have hs := hr.sound h
  have hn := hr.reads.next_ahead hS hs
  refine ⟨(answer_eq hr.cursor hr.scan).trans (congrArg Prod.fst hn), _, ⟨S, x, _, _, hS, rfl,
    hr.turn h rfl .next (hr.reads.next hS.lawful hs), congrArg Prod.snd hn⟩, fun hc => ?_⟩
  rw [Cursor.next_of_ended (Cursor.ended_of_not_open hc)]

/-- A follower that has moved and starts over has the whole route ahead, unless it meets a
saturated ring. -/
lemma rewind (h : W.Sound F H) (hf : W.Follows n R π c i)
    (hphase : c.cursor.phase = .iterating ∨ c.cursor.phase = .exhausted) :
    (Saturates ((Session.rewindCursor n).on W).1 ∨
      ((Session.rewindCursor n).on W).1 = R.ahead.outcome) ∧
    ∃ c' i', (W.after (.rewindCursor n)).Follows n R π c' i' ∧
      (((Session.rewindCursor n).on W).1 = .ok () → i' = R.ahead) ∧
      (((Session.rewindCursor n).on W).1 ≠ .ok () → c'.cursor.phase = .exhausted) := by
  obtain ⟨S, x, d, k, hS, rfl, hr, rfl⟩ := hf
  have hout : ((Session.rewindCursor n).on W).1 = (c.cursor.rewind ⟨d, k, W.engine⟩).1 :=
    congrArg Prod.fst (Session.on_onCursor hr.cursor hr.scan Cursor.rewind)
  obtain ⟨hreads, hresult, hok, herror⟩ := hr.reads.rewind_ahead hS (hr.sound h) hphase
  rw [hout]
  exact ⟨hresult, _, _, ⟨_, R.start, _, _, hS.again, rfl, hr.turn h rfl .rewind hreads, rfl⟩, hok,
    herror⟩

/-- A follower that has not moved, or is closed, does not start over. -/
lemma rewind_still (h : W.Sound F H) (hf : W.Follows n R π c i)
    (hphase : ¬ (c.cursor.phase = .iterating ∨ c.cursor.phase = .exhausted)) :
    (W.after (.rewindCursor n)).Follows n R π c i := by
  obtain ⟨S, x, d, k, hS, rfl, hr, rfl⟩ := hf
  have hrew := Cursor.rewind_of_still hphase ⟨d, k, W.engine⟩
  have hr' := hr.turn (T := S) h rfl .rewind (by rw [hrew]; exact hr.reads)
  rw [hrew] at hr'
  exact ⟨S, x, d, k, hS, rfl, hr', rfl⟩

/-- A follower can be closed. -/
lemma close (h : W.Sound F H) (hf : W.Follows n R π c i) :
    ∃ c' i', (W.after (.close n)).Follows n R π c' i' ∧ ¬ c'.cursor.IsOpen := by
  obtain ⟨S, x, d, k, hS, rfl, hr, rfl⟩ := hf
  have hs := hr.sound h
  obtain ⟨hok, hreads⟩ := hr.reads.close hs
  refine ⟨_, _, ⟨S, x, _, _, hS, rfl, hr.turn h rfl .close hreads, rfl⟩, ?_⟩
  have hclosed := Cursor.phase_close hok
  rintro (hc | hc) <;> exact absurd (hclosed.symm.trans hc) Phase.noConfusion

/-- A follower stays one until it is let go of. -/
lemma persists (h : W.Sound F H) (hf : W.Follows n R π c i) (ha : Admits n π W a) :
    ∃ c' i', (W.after a).Follows n R π c' i' := by
  by_cases hme : a.cursor? = some n
  · rcases Deed.cursor?_cases hme with rfl | rfl | rfl | rfl
    · obtain ⟨-, c', hf', -⟩ := hf.next h
      exact ⟨c', _, hf'⟩
    · by_cases hphase : c.cursor.phase = .iterating ∨ c.cursor.phase = .exhausted
      · obtain ⟨-, c', i', hf', -⟩ := hf.rewind h hphase
        exact ⟨c', i', hf'⟩
      · exact ⟨c, i, hf.rewind_still h hphase⟩
    · obtain ⟨c', i', hf', -⟩ := hf.close h
      exact ⟨c', i', hf'⟩
    · exact absurd rfl ha.keeps
  · exact ⟨c, i, hf.others h ha.permits ha.spares hme⟩

lemma run (hW : W.Reached H) (hf : W.Follows n R π c i) {V : Workshop ω} {as : List (Deed ω)}
    (hrun : Run (Admits n π) W as V) : ∃ c' i', V.Follows n R π c' i' := by
  induction hrun generalizing H c i with
  | nil => exact ⟨c, i, hf⟩
  | cons here _ ih =>
    obtain ⟨F, h⟩ := hW.sound
    obtain ⟨c', i', hf'⟩ := hf.persists h here
    exact ih (hW.deed here.permits) hf'

end Follows

/-! ## Openings -/

/-- A cursor that can be opened along a route, on a plan whose source supplies these frames, in a
workshop where all others leave alone what `π` shows. -/
structure Opening (W : Workshop ω) (plan n : String) (hub : Nat) (p : Plan ω)
    (frames : List Frame) (R : Route σ) (π : ω → σ) : Prop where
  reached : ∃ H, W.Reached H
  permitted : W.Permits (.openCursor plan n hub)
  bound : W.plans.find? plan = some p
  supplied : (p.source.supply W.engine.world).1 = .ok frames
  fits : p.source.Fits frames
  tour : p.tour frames = R.tour
  filter : p.filter.Shows R.filter π
  /-- The filter starts over in the state in which it starts along the route. -/
  rewind : ∀ w, π (p.filter.rewind w) = R.start
  dispatchers : ∀ o d w, W.dispatcher? o = some d → d.id ≠ p.dispatcher.id → d.work = some w →
    w.reducer.Leaves w.filter π
  tasks : ∀ ring slot w, (W.engine.task ring slot).work = some w →
    w.dispatcher ≠ p.dispatcher.id → w.reducer.Leaves w.filter π

/-- A cursor that is opened has the whole tour ahead, unless it meets a saturated ring. -/
lemma Opening.opened (ho : W.Opening plan n hub p frames R π) :
    (W.engine.Saturated (p.nextRing hub W.engine) ∧
      Saturates ((Session.openCursor plan n hub).on W).1) ∨
    (((Session.openCursor plan n hub).on W).1 =
        (R.tour.ahead R.filter (π (p.source.supply W.engine.world).2) 0).outcome ∧
      (((Session.openCursor plan n hub).on W).1 = .ok () → ∃ c,
        (W.after (.openCursor plan n hub)).Follows n R π c
          (R.tour.ahead R.filter (π (p.source.supply W.engine.world).2) 0))) := by
  obtain ⟨H, hW⟩ := ho.reached
  obtain ⟨F, h⟩ := hW.sound
  rcases hw : p.source.supply W.engine.world with ⟨r, w⟩
  obtain rfl : r = .ok frames := (congrArg Prod.fst hw).symm.trans ho.supplied
  have hS : (p.exactCourse hub W.engine frames π R.filter (π w)).Along (p.tour frames) R.filter
      R.start (π w) := Plan.along_exactCourse (h.reducer_eq ho.bound) ho.filter ho.rewind
  rcases Reader.opened h ho.permitted ho.bound hw ho.fits hS.lawful ho.dispatchers ho.tasks rfl with
    ⟨-, hfull, hsat⟩ | ⟨-, y, hy, hout, hok⟩
  · exact .inl ⟨hfull, hsat⟩
  · rw [← ho.tour, hS.ahead_eq hy, Find.outcome_itinerary, hout]
    refine .inr ⟨rfl, fun hx => ?_⟩
    obtain ⟨c, d, k, hr, hp⟩ := hok hx
    exact ⟨_, _, π w, d, k, ho.tour ▸ hS, rfl, hr, ho.tour ▸ hp.ahead_eq hS hr.reads hx⟩

lemma Opening.follows (ho : W.Opening plan n hub p frames R π) :
    (Saturates ((Session.openCursor plan n hub).on W).1 ∨
      ((Session.openCursor plan n hub).on W).1 =
        (R.tour.ahead R.filter (π (p.source.supply W.engine.world).2) 0).outcome) ∧
    (((Session.openCursor plan n hub).on W).1 = .ok () → ∃ c,
      (W.after (.openCursor plan n hub)).Follows n R π c
        (R.tour.ahead R.filter (π (p.source.supply W.engine.world).2) 0)) := by
  rcases ho.opened with ⟨-, hsat⟩ | ⟨hout, hok⟩
  · refine ⟨.inl hsat, fun hok => ?_⟩
    obtain ⟨shard, waited, hsat⟩ := hsat
    rw [hsat] at hok
    cases hok
  · exact ⟨.inr hout, hok⟩

end Workshop

end TableScan
