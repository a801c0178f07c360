import Mathlib.Data.List.TakeWhile
import TableScan.Source
import TableScan.Task

/-!
# Tours

The frames and rows of a source in the order of a scan, and what a filter makes of them.  A frame
brings the rows that the filter keeps, or a failure in their place; an itinerary goes through the
frames up to the first failure.  Main statement: a filter whose verdicts depend on nothing but the
row makes an itinerary of exactly the rows it keeps, up to the first frame on which it fails
(`Tour.rows_ahead`).
-/

namespace TableScan

variable {ω σ : Type}

/-! ## Orders -/

/-- All items of a visit, in order. -/
def Order.items : Order → Nat → List Nat
  | .ascending, n => List.range n
  | .descending, n => (List.range n).reverse

lemma Order.items_eq_map (o : Order) (n : Nat) : o.items n = (List.range n).map (o.itemAt n) := by
  cases o with
  | ascending => exact (List.map_id _).symm
  | descending => simp [items, itemAt, List.range_eq_range', List.reverse_range']

lemma Order.drop_items {o : Order} {n j : Nat} (hj : j < n) :
    (o.items n).drop j = o.itemAt n j :: (o.items n).drop (j + 1) := by
  rw [items_eq_map, List.drop_eq_getElem_cons (by simpa using hj)]
  simp

/-! ## Sweeps -/

namespace Sweep

/-- The rows that a sweep leaves in its task. -/
def rows : Sweep → List Nat
  | kept rows => rows
  | failed _ | faulted _ => []

/-- The failure that a sweep of a frame leaves in its task. -/
def failure? (frame : Nat) : Sweep → Option Failure
  | kept _ => none
  | failed text => some (.predicate frame text)
  | faulted _ => some (.predicate frame Task.abandonedText)

end Sweep

/-- What the library's own reducer leaves in a task and in the world. -/
lemma Task.finish_filtering {t : Task ω} {o : Order} {info : FrameInfo} {v : RowView}
    {f : Filter ω} {w w' : ω} {result : Reduction}
    (h : Reducer.filtering o info v f w = (result, w')) (ht : t.frame = info.frame) :
    (t.finish result).rows = (f.sweep o v info.rowCount w).1.rows ∧
      (t.finish result).error = (f.sweep o v info.rowCount w).1.failure? info.frame ∧
      w' = (f.sweep o v info.rowCount w).2 := by
  obtain ⟨hr, hw⟩ := Prod.mk.inj h
  have hr' : (f.sweep o v info.rowCount w).1.toReduction info.frame = result := hr
  rw [← hr', ← ht]
  refine ⟨?_, ?_, hw.symm⟩ <;> cases (f.sweep o v info.rowCount w).1 <;> rfl

/-- What a filter does, told by a filter on a part of the world. -/
def Filter.Shows (f : Filter ω) (g : Filter σ) (π : ω → σ) : Prop :=
  ∀ v w, (f.judge v w).1 = (g.judge v (π w)).1 ∧ π (f.judge v w).2 = (g.judge v (π w)).2

lemma Filter.Shows.sweep {f : Filter ω} {g : Filter σ} {π : ω → σ} (h : f.Shows g π) (o : Order)
    (v : RowView) (n : Nat) (w : ω) :
    (f.sweep o v n w).1 = (g.sweep o v n (π w)).1 ∧
      π (f.sweep o v n w).2 = (g.sweep o v n (π w)).2 := by
  suffices hlast : ∀ left kept w, (f.sweepLast o v n left kept w).1 =
      (g.sweepLast o v n left kept (π w)).1 ∧
      π (f.sweepLast o v n left kept w).2 = (g.sweepLast o v n left kept (π w)).2 from
    hlast n [] w
  intro left
  induction left with
  | zero => exact fun _ _ => ⟨rfl, rfl⟩
  | succ left ih =>
    intro kept w
    obtain ⟨h₁, h₂⟩ := h (v.atRow (o.itemAt n (n - (left + 1)))) w
    rcases hf : f.judge (v.atRow (o.itemAt n (n - (left + 1)))) w with ⟨x, w'⟩
    rcases hg : g.judge (v.atRow (o.itemAt n (n - (left + 1)))) (π w) with ⟨y, x'⟩
    rw [hf, hg] at h₁ h₂
    obtain rfl : x = y := h₁
    obtain rfl : π w' = x' := h₂
    cases x with
    | keep | skip =>
      simp only [sweepLast, hf, hg]
      exact ih _ w'
    | fails | faults =>
      simp only [sweepLast, hf, hg]
      exact ⟨trivial, trivial⟩

/-! ## Itineraries -/

/-- What is ahead of a cursor: rows, and then the end or a failure. -/
structure Itinerary where
  rows : List RowView
  failure : Option Failure := none

namespace Itinerary

/-- The end. -/
def nothing : Itinerary := { rows := [] }

/-- One itinerary after the other, unless the first one fails. -/
def andThen (i j : Itinerary) : Itinerary :=
  match i.failure with
  | none => { rows := i.rows ++ j.rows, failure := j.failure }
  | some _ => i

/-- The itinerary of a sweep over a frame. -/
def ofSweep (v : RowView) (s : Sweep) : Itinerary :=
  { rows := s.rows.map v.atRow, failure := s.failure? v.frame }

/-- The answer to a cursor's next call, with the row it moves to, and what is ahead then. -/
def next : Itinerary → (Except Stop Bool × Option RowView) × Itinerary
  | ⟨v :: rows, failure⟩ => ((.ok true, some v), ⟨rows, failure⟩)
  | ⟨[], none⟩ => ((.ok false, none), nothing)
  | ⟨[], some f⟩ => ((.error (.failed f), none), nothing)

/-- The row that the next call moves to, and the rows that are ahead then, were ahead before. -/
lemma toList_next (i : Itinerary) : i.next.1.2.toList ++ i.next.2.rows = i.rows := by
  obtain ⟨_ | ⟨v, rows⟩, _ | f⟩ := i <;> rfl

/-- Only when no rows are ahead the next call does not move to one. -/
lemma rows_of_next_ne {i : Itinerary} (h : i.next.1.1 ≠ .ok true) : i.rows = [] := by
  obtain ⟨_ | ⟨v, rows⟩, failure⟩ := i
  · rfl
  · exact absurd rfl h

end Itinerary

/-! ## Tours -/

/-- The frames of a source in the order of a scan. -/
structure Tour where
  order : Order
  view : RowView

/-- Whether all frames have as many columns as the schema of their source. -/
def Source.Fits (source : Source ω) (frames : List Frame) : Prop :=
  frames.all (Directory.ofSchema source.schema).fits = true

/-- The frames of a source in a directory. -/
def Source.directory (source : Source ω) (frames : List Frame) : Directory :=
  ((Directory.ofSchema source.schema).addAll frames).2

lemma Source.Fits.directory {source : Source ω} {frames : List Frame} (h : source.Fits frames) :
    source.directory frames = { types := source.schema.types, frames := frames.toArray } := by
  have ht : frames.takeWhile (Directory.ofSchema source.schema).fits = frames :=
    List.takeWhile_eq_self_iff.2 (List.all_eq_true.1 h)
  simp only [Source.directory, Directory.addAll, ht]
  simp [Directory.ofSchema]

/-- The tour over the frames that a source has supplied. -/
def Source.tour (source : Source ω) (frames : List Frame) : Tour where
  order := source.order
  view := .ofDirectory (source.directory frames) source.dictionaries

namespace Tour

variable {T : Tour} {g : Filter σ} {x : σ} {b : Nat}

/-- The number of frames. -/
def count (T : Tour) : Nat := T.view.directory.frames.size

/-- The frame at a position. -/
def frame (T : Tour) (position : Nat) : Nat := T.order.itemAt T.count position

/-- The sweep of a filter over the frame at a position. -/
def sweep (T : Tour) (g : Filter σ) (position : Nat) (x : σ) : Sweep × σ :=
  g.sweep T.order (T.view.atFrame (T.frame position))
    (T.view.directory.rowCount (T.frame position)) x

/-- The state of a filter before the frame at a position, when it began with `x`. -/
def state (T : Tour) (g : Filter σ) (x : σ) : Nat → σ
  | 0 => x
  | j + 1 => (T.sweep g j (T.state g x j)).2

/-- What the frame at a position brings. -/
def leg (T : Tour) (g : Filter σ) (x : σ) (position : Nat) : Itinerary :=
  .ofSweep (T.view.atFrame (T.frame position)) (T.sweep g position (T.state g x position)).1

/-- What is ahead from a position on. -/
def ahead (T : Tour) (g : Filter σ) (x : σ) (position : Nat) : Itinerary :=
  (((List.range T.count).drop position).map (T.leg g x)).foldr .andThen .nothing

lemma ahead_of_lt (hb : b < T.count) :
    T.ahead g x b = (T.leg g x b).andThen (T.ahead g x (b + 1)) := by
  unfold ahead
  rw [List.drop_eq_getElem_cons (by simpa using hb)]
  simp

lemma ahead_count : T.ahead g x T.count = .nothing := by
  rw [ahead, List.drop_eq_nil_of_le (by simp)]
  rfl

end Tour

/-! ## Verdicts on rows -/

/-- Whether a verdict answers the question. -/
def Verdict.answers : Verdict → Bool
  | keep | skip => true
  | fails _ | faults _ => false

/-- The filter whose verdict on a row depends on nothing else. -/
def Filter.ofVerdict (verdict : RowView → Verdict) : Filter Unit :=
  { judge := fun v u => (verdict v, u) }

namespace Filter

variable {verdict : RowView → Verdict} {f : Filter ω}

lemma shows_ofVerdict (hf : ∀ v w, (f.judge v w).1 = verdict v) :
    f.Shows (ofVerdict verdict) fun _ => () := fun v w => ⟨hf v w, rfl⟩

/-- A sweep keeps the rows that the verdict keeps, or fails if the verdict does on any row. -/
lemma sweep_ofVerdict (verdict : RowView → Verdict) (o : Order) (v : RowView) (n frame : Nat) :
    (((o.items n).all fun row => (verdict (v.atRow row)).answers) = true →
      ((ofVerdict verdict).sweep o v n ()).1 =
        .kept ((o.items n).filter fun row => verdict (v.atRow row) = .keep)) ∧
    (((o.items n).all fun row => (verdict (v.atRow row)).answers) = false →
      ((ofVerdict verdict).sweep o v n ()).1.rows = [] ∧
        (((ofVerdict verdict).sweep o v n ()).1.failure? frame).isSome) := by
  -- for the induction: the rows that are left, behind those that were kept
  suffices hlast : ∀ left kept, left ≤ n →
      ((((o.items n).drop (n - left)).all fun row => (verdict (v.atRow row)).answers) = true →
        ((ofVerdict verdict).sweepLast o v n left kept ()).1 = .kept (kept.reverse ++
          ((o.items n).drop (n - left)).filter fun row => verdict (v.atRow row) = .keep)) ∧
      ((((o.items n).drop (n - left)).all fun row => (verdict (v.atRow row)).answers) = false →
        ((ofVerdict verdict).sweepLast o v n left kept ()).1.rows = [] ∧
          (((ofVerdict verdict).sweepLast o v n left kept ()).1.failure? frame).isSome) by
    simpa [sweep] using hlast n [] (Nat.le_refl n)
  intro left
  induction left with
  | zero =>
    intro kept _
    have hnil : (o.items n).drop n = [] :=
      List.drop_eq_nil_of_le (by simp [Order.items_eq_map])
    simp [hnil, sweepLast]
  | succ left ih =>
    intro kept hle
    have hrow : n - (left + 1) + 1 = n - left := by omega
    rw [Order.drop_items (by omega), hrow]
    simp only [List.all_cons, List.filter_cons]
    cases hv : verdict (v.atRow (o.itemAt n (n - (left + 1)))) with
    | keep =>
      have hj : (ofVerdict verdict).judge (v.atRow (o.itemAt n (n - (left + 1)))) () = (.keep, ()) :=
        congrArg (·, ()) hv
      simpa [sweepLast, hj, Verdict.answers] using
        ih (o.itemAt n (n - (left + 1)) :: kept) (by omega)
    | skip =>
      have hj : (ofVerdict verdict).judge (v.atRow (o.itemAt n (n - (left + 1)))) () = (.skip, ()) :=
        congrArg (·, ()) hv
      simpa [sweepLast, hj, Verdict.answers] using ih kept (by omega)
    | fails text =>
      have hj : (ofVerdict verdict).judge (v.atRow (o.itemAt n (n - (left + 1)))) () =
          (.fails text, ()) := congrArg (·, ()) hv
      simp [sweepLast, hj, Verdict.answers, Sweep.rows, Sweep.failure?]
    | faults fault =>
      have hj : (ofVerdict verdict).judge (v.atRow (o.itemAt n (n - (left + 1)))) () =
          (.faults fault, ()) := congrArg (·, ()) hv
      simp [sweepLast, hj, Verdict.answers, Sweep.rows, Sweep.failure?]

end Filter

namespace Tour

variable {T : Tour}

/-- The rows of a frame in the order of the scan. -/
def visit (T : Tour) (frame : Nat) : List RowView :=
  (T.order.items (T.view.directory.rowCount frame)).map (T.view.atFrame frame).atRow

/-- The rows that a verdict keeps, frame by frame, up to the first frame with a row on which it
does not answer. -/
def reference (T : Tour) (verdict : RowView → Verdict) : List RowView :=
  (((T.order.items T.count).map T.visit).takeWhile (·.all fun v => (verdict v).answers)).flatMap
    (·.filter fun v => verdict v = .keep)

/-- A frame brings the rows that the verdict keeps, or a failure in their place. -/
lemma leg_ofVerdict (T : Tour) (verdict : RowView → Verdict) (j : Nat) :
    ((T.visit (T.frame j)).all (fun v => (verdict v).answers) = true →
      T.leg (.ofVerdict verdict) () j =
        { rows := (T.visit (T.frame j)).filter fun v => verdict v = .keep }) ∧
    ((T.visit (T.frame j)).all (fun v => (verdict v).answers) = false →
      (T.leg (.ofVerdict verdict) () j).rows = [] ∧
        (T.leg (.ofVerdict verdict) () j).failure.isSome) := by
  have hleg : T.leg (.ofVerdict verdict) () j = .ofSweep (T.view.atFrame (T.frame j))
      ((Filter.ofVerdict verdict).sweep T.order (T.view.atFrame (T.frame j))
        (T.view.directory.rowCount (T.frame j)) ()).1 := rfl
  obtain ⟨hkept, hfailed⟩ := Filter.sweep_ofVerdict verdict T.order (T.view.atFrame (T.frame j))
    (T.view.directory.rowCount (T.frame j)) (T.frame j)
  rw [hleg, visit, List.all_map, List.filter_map]
  refine ⟨fun hall => ?_, fun hall => ?_⟩
  · rw [hkept hall]
    rfl
  · obtain ⟨hrows, hfailure⟩ := hfailed hall
    exact ⟨by rw [Itinerary.ofSweep, hrows]; rfl, hfailure⟩

/-- What is ahead of a cursor whose filter judges the rows by themselves. -/
lemma rows_ahead (T : Tour) (verdict : RowView → Verdict) :
    (T.ahead (.ofVerdict verdict) () 0).rows = T.reference verdict := by
  unfold ahead reference
  rw [Order.items_eq_map, List.drop_zero, List.map_map]
  induction List.range T.count with
  | nil => rfl
  | cons j l ih =>
    obtain ⟨hkept, hfailed⟩ := T.leg_ofVerdict verdict j
    have hvisit : (T.visit ∘ T.order.itemAt T.count) j = T.visit (T.frame j) := rfl
    rw [List.map_cons, List.map_cons, List.foldr_cons, List.takeWhile_cons, hvisit]
    cases hall : (T.visit (T.frame j)).all fun v => (verdict v).answers with
    | true =>
      rw [hkept hall, if_pos rfl, List.flatMap_cons, ← ih]
      rfl
    | false =>
      obtain ⟨hrows, hfailure⟩ := hfailed hall
      obtain ⟨f, hf⟩ := Option.isSome_iff_exists.1 hfailure
      rw [if_neg Bool.false_ne_true, Itinerary.andThen, hf]
      exact hrows

end Tour

end TableScan
