import TableScan.Proofs.Readers

/-!
# Itineraries of cursors

What is ahead of a cursor on a course that is known exactly: the rows and the failure that its tour
has from its position on.  Main statement: a cursor answers as its itinerary does, call by call
(`Cursor.Reads.next_ahead`), and a cursor that starts over has the whole tour ahead
(`Cursor.Reads.rewind_ahead`).
-/

namespace TableScan

variable {ω σ : Type}

/-! ## Courses along a tour -/

/-- What a filter that begins in the state `x` finds on a tour. -/
def Tour.finds (T : Tour) (g : Filter σ) (x : σ) (j : Nat) (rows : List Nat)
    (error : Option Failure) : Prop :=
  rows = (T.sweep g j (T.state g x j)).1.rows ∧
    error = (T.sweep g j (T.state g x j)).1.failure? (T.frame j)

/-- A course that is known exactly: it goes along a tour, and `g` tells what its filter does when
it begins in the state `x`.  A filter that is rewound begins in the state `x₀`. -/
structure Course.Along (S : Course ω σ) (T : Tour) (g : Filter σ) (x₀ x : σ) : Prop where
  dispatcher : S.work.dispatcher = S.id
  reducer : S.work.reducer = .filtering T.order
  filter : S.work.filter.Shows g S.shown
  rewind : ∀ w, S.shown (S.work.filter.rewind w) = x₀
  view : S.work.view = T.view
  order : S.order = T.order
  count : S.count = T.count
  directory : S.directory = T.view.directory
  state : S.state = T.state g x
  found : S.found = T.finds g x

namespace Course.Along

variable {S : Course ω σ} {T : Tour} {g : Filter σ} {x₀ x : σ}

lemma frame_eq (h : S.Along T g x₀ x) (j : Nat) : S.frame j = T.frame j := by
  rw [frame, h.order, h.count]
  rfl

/-- A course along a tour is lawful. -/
lemma lawful (h : S.Along T g x₀ x) : S.Lawful := by
  refine ⟨h.dispatcher, fun j _ epoch w result w' hw hred => ?_⟩
  rw [h.reducer] at hred
  obtain ⟨hrows, herror, hw'⟩ := Task.finish_filtering (t := S.ask epoch j) hred rfl
  have hsweep := h.filter.sweep T.order (T.view.atFrame (T.frame j))
    (T.view.directory.rowCount (T.frame j)) w
  rw [h.state] at hw
  rw [h.view, h.directory, h.frame_eq] at hrows herror hw'
  rw [hw] at hsweep
  rw [h.found, h.state]
  refine ⟨⟨hrows.trans (congrArg Sweep.rows hsweep.1),
    herror.trans (congrArg (Sweep.failure? _) hsweep.1)⟩, ?_⟩
  rw [hw']
  exact hsweep.2

/-- The course of another pass, with the filter rewound. -/
lemma again (h : S.Along T g x₀ x) :
    (S.again (T.state g x₀) (T.finds g x₀)).Along T g x₀ x₀ :=
  ⟨h.dispatcher, h.reducer, h.filter, h.rewind, h.view, h.order, h.count, h.directory, rfl, rfl⟩

end Course.Along

namespace Plan

variable {p : Plan ω} {hub : Nat} {e : Engine ω} {frames : List Frame} {π : ω → σ}
  {g : Filter σ} {x₀ x : σ}

/-- The tour of an execution of a plan. -/
def tour (p : Plan ω) (frames : List Frame) : Tour := p.source.tour frames

/-- The course of an execution of a plan, as it is told by the filter `g`. -/
def exactCourse (p : Plan ω) (hub : Nat) (e : Engine ω) (frames : List Frame) (π : ω → σ)
    (g : Filter σ) (x : σ) : Course ω σ :=
  p.course hub e frames π ((p.tour frames).state g x) ((p.tour frames).finds g x)

lemma along_exactCourse (h : p.dispatcher.reducer = .filtering p.source.order)
    (hg : p.filter.Shows g π) (hrewind : ∀ w, π (p.filter.rewind w) = x₀) :
    (p.exactCourse hub e frames π g x).Along (p.tour frames) g x₀ x :=
  ⟨rfl, h, hg, hrewind, rfl, rfl, rfl, rfl, rfl, rfl⟩

end Plan

/-- What a search along a tour has found ahead. -/
def Find.itinerary (T : Tour) (g : Filter σ) (x : σ) : Find → Itinerary
  | .nothing => .nothing
  | .rows b row rest =>
      Itinerary.andThen { rows := (row :: rest).map (T.view.atFrame (T.frame b)).atRow }
        (T.ahead g x (b + 1))
  | .failure _ f => { rows := [], failure := some f }

/-- The outcome of a call that puts a cursor before an itinerary: a failure before the first row
comes up at once. -/
def Itinerary.outcome : Itinerary → Except Stop Unit
  | ⟨[], some f⟩ => .error (.failed f)
  | _ => .ok ()

namespace Course

variable {S : Course ω σ} {T : Tour} {g : Filter σ} {x₀ x : σ} {b : Nat} {y : Find}

lemma Along.leg_eq (hS : S.Along T g x₀ x) {rows : List Nat} {error : Option Failure}
    (h : S.found b rows error) :
    T.leg g x b = { rows := rows.map (T.view.atFrame (T.frame b)).atRow, failure := error } ∧
      (error.isSome → rows = []) := by
  rw [hS.found] at h
  obtain ⟨hrows, herror⟩ := h
  refine ⟨?_, ?_⟩
  · rw [hrows, herror]
    rfl
  · rw [hrows, herror]
    cases (T.sweep g b (T.state g x b)).1 <;> simp [Sweep.rows, Sweep.failure?]

/-- What there is to find is what is ahead. -/
lemma Along.ahead_eq (hS : S.Along T g x₀ x) (h : S.Finds b y) :
    T.ahead g x b = y.itinerary T g x := by
  induction h with
  | nothing => rw [hS.count, Tour.ahead_count]; rfl
  | pass there found _ ih =>
    rw [Tour.ahead_of_lt (hS.count ▸ there), (hS.leg_eq found).1, ← ih]
    rfl
  | rows there found =>
    rw [Tour.ahead_of_lt (hS.count ▸ there), (hS.leg_eq found).1]
    rfl
  | failure there found =>
    obtain ⟨hleg, hrows⟩ := hS.leg_eq found
    rw [Tour.ahead_of_lt (hS.count ▸ there), hleg, hrows rfl]
    rfl

end Course

lemma Find.outcome_itinerary (T : Tour) (g : Filter σ) (x : σ) (y : Find) :
    (y.itinerary T g x).outcome = y.outcome := by
  cases y <;> rfl

namespace Cursor

variable {S : Course ω σ} {T : Tour} {g : Filter σ} {x₀ x : σ} {c : Cursor} {s : Scan ω} {y : Find}
  {N : List Lease} {C L H : List Place} {F : List Lease}

/-! ## What is ahead of a cursor -/

/-- What is ahead of a cursor: the rest of the frame at hand and of the tour, until it has ended. -/
def ahead (c : Cursor) (T : Tour) (g : Filter σ) (x : σ) : Itinerary :=
  match c.phase with
  | .fresh | .iterating =>
      Itinerary.andThen { rows := c.rest.map c.view.atRow } (T.ahead g x c.position)
  | .exhausted | .closed => .nothing

/-- A cursor's answer, with the row that it has moved to. -/
def answer (r : Except Stop Bool × Cursor × Scan ω) : Except Stop Bool × Option RowView :=
  (r.1, match r.1 with
    | .ok true => some r.2.1.view
    | _ => none)

lemma ahead_of_open (hc : c.IsOpen) :
    c.ahead T g x = Itinerary.andThen { rows := c.rest.map c.view.atRow } (T.ahead g x c.position) := by
  unfold ahead
  rcases hc with hc | hc <;> rw [hc]

lemma ahead_of_ended (hc : c.phase = .exhausted ∨ c.phase = .closed) :
    c.ahead T g x = .nothing := by
  unfold ahead
  rcases hc with hc | hc <;> rw [hc]

/-- A cursor before what it has found. -/
lemma Poised.ahead_eq (hS : S.Along T g x₀ x) (h : c.Poised S y) (hr : c.Reads S s)
    (hy : y.outcome = .ok ()) : c.ahead T g x = y.itinerary T g x := by
  rw [ahead_of_open (.inl (h.fresh hy))]
  cases y with
  | nothing =>
    obtain ⟨-, hrest, hposition⟩ := h
    rw [hrest, hposition, hS.count, Tour.ahead_count]
    rfl
  | rows b row rest =>
    obtain ⟨-, hframe, hrest, hposition⟩ := h
    rw [hrest, hposition, hr.view, hframe, hS.view, Course.frame, hS.order, hS.count]
    rfl
  | failure => cases hy

namespace Reads

/-- A cursor answers as its itinerary does, and what is ahead moves on. -/
lemma next_ahead (hS : S.Along T g x₀ x) (h : c.Reads S s) (hs : s.Sound (c.leases ++ N) C L F H) :
    (answer (c.next s), (c.next s).2.1.ahead T g x) = (c.ahead T g x).next := by
  rcases h.next_cases hS.lawful hs with
    ⟨hc, hn⟩ | ⟨row, rest, hc, hrest, hn⟩ | ⟨hc, hrest, y, hy, hseek⟩
  · rw [hn, ahead_of_ended (ended_of_not_open hc)]
    rfl
  · rw [hn, ahead_of_open hc, hrest, ahead_of_open (.inr rfl)]
    rfl
  · rw [ahead_of_open hc, hrest, hS.ahead_eq hy]
    cases y with
    | nothing =>
      obtain ⟨c', s', hn, hphase, -⟩ := hseek
      rw [hn]
      exact Prod.ext rfl (ahead_of_ended (.inl hphase))
    | rows b row rest =>
      obtain ⟨c', s', hn, hphase, hframe, hrow, hrest', hposition, hr⟩ := hseek
      have hview : c'.view = (T.view.atFrame (T.frame b)).atRow row := by
        rw [hr.view, hframe, hrow, hS.view, Course.frame, hS.order, hS.count]
        rfl
      rw [hn]
      refine Prod.ext ?_ ?_
      · simp only [answer, hview]
        rfl
      · show c'.ahead T g x = _
        rw [ahead_of_open (.inr hphase), hview, hrest', hposition]
        rfl
    | failure b f =>
      obtain ⟨c', s', hn, hphase, -⟩ := hseek
      rw [hn]
      exact Prod.ext rfl (ahead_of_ended (.inl hphase))

/-- A cursor that has moved and starts over has the whole tour ahead, unless it was exhausted
before a starving scan.  If it fails, it is exhausted. -/
lemma rewind_ahead (hS : S.Along T g x₀ x) (h : c.Reads S s) (hs : s.Sound (c.leases ++ N) C L F H)
    (hphase : c.phase = .iterating ∨ c.phase = .exhausted) :
    (c.rewind s).2.1.Reads (S.again (T.state g x₀) (T.finds g x₀)) (c.rewind s).2.2 ∧
      (Saturates (c.rewind s).1 ∨ (c.rewind s).1 = (T.ahead g x₀ 0).outcome) ∧
      ((c.rewind s).1 = .ok () → (c.rewind s).2.1.ahead T g x₀ = T.ahead g x₀ 0) ∧
      ((c.rewind s).1 ≠ .ok () → (c.rewind s).2.1.phase = .exhausted) := by
  rcases h.rewind hS.again.lawful hS.rewind hs hphase with
    ⟨-, -, -, shard, waited, c', s', hr, hp, hreads⟩ | ⟨-, y, hy, c', s', hr, hp, hreads⟩ <;> rw [hr]
  · exact ⟨hreads, .inl ⟨shard, waited, rfl⟩, nofun, fun _ => hp⟩
  · rw [hS.again.ahead_eq hy, Find.outcome_itinerary]
    refine ⟨hreads, .inr rfl, fun hout => hp.ahead_eq hS.again hreads hout, fun hout => ?_⟩
    cases y with
    | nothing | rows => exact absurd rfl hout
    | failure => exact hp

end Reads

end Cursor

end TableScan
