import TableScan.Proofs.Courses
import TableScan.Proofs.Recordings

/-!
# Passes

A pass is one execution of a scan from its first frame on, with a filter that keeps a record of
the rows it is asked about.  Main statement: a cursor that has collected the frames of a pass up to
a position without a failure has what one loop keeps of them (`Pass.Brings.succ`).
-/

namespace TableScan

variable {ω σ : Type}

/-- A pass over the frames of a directory. -/
structure Pass (ω : Type) where
  /-- The dispatcher whose pass it is. -/
  dispatcher : Nat
  view : RowView
  filter : Filter ω
  /-- The order of the frames. -/
  order : Order
  /-- The order of the rows of each frame. -/
  rows : Order
  count : Nat
  directory : Directory

/-- The pass of an execution over the frames of a source. -/
def Source.pass (source : Source ω) (dispatcher : Nat) (rows : Order) (filter : Filter ω)
    (frames : List Frame) : Pass ω where
  dispatcher
  view := .ofDirectory (source.directory frames) source.dictionaries
  filter
  order := source.order
  rows
  count := (source.directory frames).frames.size
  directory := source.directory frames

/-- Another pass of a dispatcher over the frames of its execution. -/
def Dispatcher.pass (d : Dispatcher ω) (work : Work ω) (rows : Order) : Pass ω where
  dispatcher := d.id
  view := work.view
  filter := work.filter
  order := d.order
  rows
  count := d.frameCount
  directory := d.directory

namespace Pass

variable {P : Pass ω} {g : Filter σ} {x : σ × List RowView} {π : ω → σ × List RowView}
  {ring j q : Nat} {kept : List Nat} {rows : List RowView}

/-- The frame at a position. -/
def frame (P : Pass ω) (position : Nat) : Nat := P.order.itemAt P.count position

/-- The rows of a frame, in their order. -/
def visit (P : Pass ω) (frame : Nat) : List RowView :=
  (P.rows.items (P.directory.rowCount frame)).map (P.view.atFrame frame).atRow

/-- All frames in their order, row by row. -/
def visits (P : Pass ω) : List (List RowView) := (P.order.items P.count).map P.visit

lemma length_visits (P : Pass ω) : P.visits.length = P.count := by
  simp [visits, Order.items_eq_map]

lemma visits_getElem? (hj : j < P.count) : P.visits[j]? = some (P.visit (P.frame j)) := by
  simp [visits, Order.items_eq_map, hj, frame]

lemma frame_inj {i j : Nat} (hi : i < P.count) (hj : j < P.count) (h : P.frame i = P.frame j) :
    i = j := by
  unfold frame Order.itemAt at h
  split at h <;> omega

/-- A pass comes by no row twice. -/
lemma nodup_visits (P : Pass ω) : P.visits.flatten.Nodup := by
  have hitems : ∀ (o : Order) (n : Nat), (o.items n).Nodup := by
    rintro (_ | _) n
    · exact List.nodup_range
    · exact List.nodup_reverse.2 List.nodup_range
  refine List.nodup_flatten.2 ⟨fun l hl => ?_, ?_⟩
  · obtain ⟨frame, -, rfl⟩ := List.mem_map.1 hl
    exact (hitems _ _).map fun a b hab => congrArg RowView.row hab
  · refine List.pairwise_map.2 ((hitems P.order P.count).imp fun {a b} hne => ?_)
    intro v ha hb
    obtain ⟨r, -, rfl⟩ := List.mem_map.1 ha
    obtain ⟨r', -, hv⟩ := List.mem_map.1 hb
    exact hne (congrArg RowView.frame hv.symm)

/-! ## The course of a pass -/

/-- What a filter with a record finds at a position, when it began the pass in the state `x`. -/
def sweep (P : Pass ω) (g : Filter σ) (x : σ × List RowView) (j : Nat) : Sweep :=
  (g.recording.sweep P.rows (P.view.atFrame (P.frame j)) (P.directory.rowCount (P.frame j))
    (g.record (P.visits.take j) x)).1

/-- The course of a pass with a filter that keeps a record. -/
def course (P : Pass ω) (ring : Nat) (π : ω → σ × List RowView) (g : Filter σ)
    (x : σ × List RowView) : Course ω (σ × List RowView) where
  id := P.dispatcher
  ring
  work :=
    { dispatcher := P.dispatcher, view := P.view, filter := P.filter, reducer := .filtering P.rows }
  order := P.order
  count := P.count
  directory := P.directory
  shown := π
  state j := g.record (P.visits.take j) x
  found j rows error := rows = (P.sweep g x j).rows ∧ error = (P.sweep g x j).failure? (P.frame j)

/-- One more frame is put on record. -/
lemma state_succ (hj : j < P.count) :
    g.record (P.visits.take (j + 1)) x =
      (g.recording.sweep P.rows (P.view.atFrame (P.frame j)) (P.directory.rowCount (P.frame j))
        (g.record (P.visits.take j) x)).2 := by
  rw [Filter.record_take_succ (visits_getElem? hj)]
  exact ((g.sweep_recording P.rows (P.view.atFrame (P.frame j))
    (P.directory.rowCount (P.frame j)) _ _).1).symm

/-- The course of a pass is lawful if its filter keeps the record. -/
lemma lawful (hg : P.filter.Shows g.recording π) : (P.course ring π g x).Lawful := by
  refine ⟨rfl, fun j hj epoch w result w' hw hred => ?_⟩
  obtain ⟨hrows, herror, hw'⟩ := Task.finish_filtering
    (t := (P.course ring π g x).ask epoch j) hred rfl
  have hsweep := hg.sweep P.rows (P.view.atFrame (P.frame j)) (P.directory.rowCount (P.frame j)) w
  have hw : π w = g.record (P.visits.take j) x := hw
  rw [hw] at hsweep
  refine ⟨⟨hrows.trans (congrArg Sweep.rows hsweep.1),
    herror.trans (congrArg (Sweep.failure? _) hsweep.1)⟩, ?_⟩
  rw [hw']
  exact hsweep.2.trans (state_succ hj).symm

/-- The first `q` frames of a pass bring these rows and no failure. -/
structure Brings (P : Pass ω) (g : Filter σ) (x : σ × List RowView) (q : Nat)
    (rows : List RowView) : Prop where
  keeps : ∀ rest, g.keeps ((P.visits.take q).flatten ++ rest) x.1 =
    rows ++ g.keeps rest (g.record (P.visits.take q) x).1
  asked : (g.through (P.visits.take q) x.1).1 = (P.visits.take q).flatten

lemma Brings.zero : P.Brings g x 0 [] := ⟨fun _ => rfl, rfl⟩

/-- A frame without a failure adds the rows that are found there. -/
lemma Brings.succ (h : P.Brings g x q rows) (hq : q < P.count)
    (hfound : (P.course ring π g x).found q kept none) :
    P.Brings g x (q + 1) (rows ++ kept.map (P.view.atFrame (P.frame q)).atRow) := by
  obtain ⟨hkept, herror⟩ := hfound
  have hvisit := visits_getElem? hq
  obtain ⟨hlt, hget⟩ := List.getElem?_eq_some_iff.1 hvisit
  have htake : P.visits.take (q + 1) = P.visits.take q ++ [P.visit (P.frame q)] := by
    rw [List.take_succ_eq_append_getElem hlt, hget]
  obtain ⟨hstate, hsum⟩ := g.sweep_recording P.rows (P.view.atFrame (P.frame q))
    (P.directory.rowCount (P.frame q)) (g.record (P.visits.take q) x).1
    (g.record (P.visits.take q) x).2
  have hrecord := Filter.record_take_succ (g := g) hvisit x
  cases hs : P.sweep g x q with
  | kept found =>
    obtain rfl : kept = found := by rw [hkept, hs]; rfl
    obtain ⟨hall, hrest⟩ := hsum kept hs
    refine ⟨fun rest => ?_, ?_⟩
    · rw [htake, List.flatten_append, List.flatten_singleton, List.append_assoc, h.keeps,
        ← htake, hrecord, List.append_assoc]
      exact congrArg (rows ++ ·) (hrest rest)
    · have hthrough := congrArg Prod.snd (Filter.record_take_succ (g := g) hvisit (x.1, []))
      simp only [Filter.record, List.nil_append] at hthrough
      rw [hthrough, htake, List.flatten_append, List.flatten_singleton, h.asked]
      exact congrArg (_ ++ ·) hall
  | failed | faulted =>
    rw [hs] at herror
    cases herror

end Pass

end TableScan
