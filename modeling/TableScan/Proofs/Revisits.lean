import Mathlib.Data.List.Induction
import TableScan.Proofs.Delivery
import TableScan.Proofs.Independence

/-!
# Revisits

Rows that are gone back to by their ids.  An id holds the frame and the row within the frame as far
as its two fields go.  Main statement: the rows that a cursor delivers in one pass and whose
addresses fit have ids of their own, and a view of the cursor that is moved to such an id shows
what the cursor showed at delivery, whenever the view is taken (`Workshop.revisits`).
-/

namespace TableScan

variable {ω σ : Type}

namespace RowView

variable {u v : RowView}

/-- The address of the row fits the fields of an id. -/
def Addressable (v : RowView) : Prop := v.frame ≤ RowId.maxFrame ∧ v.row ≤ RowId.maxRow

/-- A view that is moved to the id of an addressable row stands on that row. -/
lemma moveTo_id (u : RowView) (h : v.Addressable) :
    u.moveTo v.id = (u.atFrame v.frame).atRow v.row := by
  obtain ⟨hframe, hrow⟩ := h
  simp only [RowId.maxFrame, RowId.maxRow, Nat.shiftLeft_eq] at hframe hrow
  have hf : v.id.frame = v.frame := (RowId.frame_pack ..).trans (Nat.mod_eq_of_lt (by omega))
  have hr : v.id.row = v.row := (RowId.row_pack ..).trans (Nat.mod_eq_of_lt (by omega))
  simp only [moveTo, hf, hr]
  rfl

/-- Addressable rows with one id have one address. -/
lemma address_eq_of_id_eq (hu : u.Addressable) (hv : v.Addressable) (h : u.id = v.id) :
    u.frame = v.frame ∧ u.row = v.row := by
  have hmove := (moveTo_id u hu).symm.trans ((congrArg u.moveTo h).trans (moveTo_id u hv))
  exact ⟨(congrArg (·.frame) hmove :), (congrArg (·.row) hmove :)⟩

/-- However a view was moved, it is moved on from the same frames. -/
lemma foldl_moveTo (ids : List RowId) (i : RowId) (v : RowView) :
    (ids.foldl moveTo v).moveTo i = v.moveTo i := by
  induction ids generalizing v with
  | nil => rfl
  | cons j ids ih => exact ih (v.moveTo j)

end RowView

/-! ## Sieves -/

lemma Order.nodup_items (o : Order) (n : Nat) : (o.items n).Nodup := by
  cases o with
  | ascending => exact List.nodup_range
  | descending => exact List.nodup_reverse.2 List.nodup_range

namespace Course

variable {S : Course ω σ} {a b row : Nat} {rest : List Nat}

/-- The rows of the frame at a position, in the order of the scan. -/
def visit (S : Course ω σ) (position : Nat) : List RowView :=
  (S.order.items (S.directory.rowCount (S.frame position))).map
    (S.work.view.atFrame (S.frame position)).atRow

/-- The rows of the first `b` frames. -/
def visits (S : Course ω σ) (b : Nat) : List RowView := (List.range b).flatMap S.visit

/-- A course on which a frame brings some of its rows, in the order of the scan. -/
def Sieves (S : Course ω σ) : Prop :=
  ∀ j rows error, S.found j rows error →
    rows.Sublist (S.order.items (S.directory.rowCount (S.frame j)))

lemma visits_succ (S : Course ω σ) (b : Nat) : S.visits (b + 1) = S.visits b ++ S.visit b := by
  simp [visits, List.range_succ]

lemma visits_sublist (h : a ≤ b) : (S.visits a).Sublist (S.visits b) := by
  induction h with
  | refl => exact .refl _
  | step _ ih =>
    rw [visits_succ]
    exact ih.trans (List.sublist_append_left ..)

/-- The rows that are found lie ahead, and are rows of their frame. -/
lemma Finds.of_rows (h : S.Finds a (.rows b row rest)) :
    a ≤ b ∧ b < S.count ∧ S.found b (row :: rest) none := by
  generalize hx : Find.rows b row rest = x at h
  induction h with
  | nothing => cases hx
  | pass _ _ _ ih =>
    obtain ⟨hle, hfound⟩ := ih hx
    exact ⟨Nat.le_of_succ_le hle, hfound⟩
  | rows there found =>
    cases hx
    exact ⟨Nat.le_refl _, there, found⟩
  | failure => cases hx

/-- The frames of a course come at one position each. -/
lemma frame_inj {i j : Nat} (hi : i < S.count) (hj : j < S.count) (h : S.frame i = S.frame j) :
    i = j := by
  unfold frame Order.itemAt at h
  split at h <;> omega

/-- No two rows of a course have one address. -/
lemma pairwise_visits (S : Course ω σ) : (S.visits S.count).Pairwise fun u v =>
    ¬ (u.frame = v.frame ∧ u.row = v.row) := by
  refine List.pairwise_flatMap.2 ⟨fun j _ => ?_, ?_⟩
  · exact List.pairwise_map.2 ((S.order.nodup_items _).imp fun hne h => hne h.2)
  · refine List.nodup_range.imp_of_mem fun hi hj hne u hu v hv h => hne ?_
    obtain ⟨r, -, rfl⟩ := List.mem_map.1 hu
    obtain ⟨r', -, rfl⟩ := List.mem_map.1 hv
    exact frame_inj (List.mem_range.1 hi) (List.mem_range.1 hj) h.1

end Course

namespace Filter

/-- A sweep keeps some of the rows, in the order of the visit. -/
lemma rows_sweep_sublist (f : Filter ω) (o : Order) (v : RowView) (n : Nat) (w : ω) :
    (f.sweep o v n w).1.rows.Sublist (o.items n) := by
  suffices hlast : ∀ left kept w, left ≤ n → (f.sweepLast o v n left kept w).1.rows.Sublist
      (kept.reverse ++ (o.items n).drop (n - left)) by
    simpa [sweep] using hlast n [] w (Nat.le_refl n)
  intro left
  induction left with
  | zero => exact fun kept w _ => List.sublist_append_left ..
  | succ left ih =>
    intro kept w hle
    have hrow : n - (left + 1) + 1 = n - left := by omega
    rw [Order.drop_items (by omega), hrow]
    rcases hj : f.judge (v.atRow (o.itemAt n (n - (left + 1)))) w with ⟨x, w'⟩
    cases x with
    | keep =>
      simp only [sweepLast, hj]
      simpa using ih (o.itemAt n (n - (left + 1)) :: kept) w' (by omega)
    | skip =>
      simp only [sweepLast, hj]
      exact (ih kept w' (by omega)).trans ((List.sublist_cons_self ..).append_left _)
    | fails | faults =>
      simp only [sweepLast, hj]
      exact List.nil_sublist _

end Filter

namespace Cursor

variable {S : Course ω σ} {c : Cursor} {s : Scan ω} {x : Find}

/-- The rows that a cursor has at hand. -/
def atHand (c : Cursor) : List RowView := c.rest.map c.view.atRow

/-- What a cursor has at hand when it stands before what it has found are rows of the course. -/
lemma Poised.atHand_sublist (hS : S.Sieves) (h : c.Poised S x) (hx : S.Finds 0 x)
    (hr : c.Reads S s) (hc : c.IsOpen) : c.atHand.Sublist (S.visits c.position) := by
  cases x with
  | nothing =>
    obtain ⟨-, hrest, -⟩ := h
    simp [atHand, hrest]
  | rows b row rest =>
    obtain ⟨-, hframe, hrest, hposition⟩ := h
    have hfound := (hS _ _ _ hx.of_rows.2.2).map (S.work.view.atFrame (S.frame b)).atRow
    rw [atHand, hrest, hposition, hr.view, hframe, S.visits_succ]
    exact hfound.trans (List.sublist_append_right ..)
  | failure b f =>
    rcases hc with hc | hc <;> exact absurd (h.symm.trans hc) Phase.noConfusion

lemma Poised.position_le (h : c.Poised S x) (hx : S.Finds 0 x) (hc : c.IsOpen) :
    c.position ≤ S.count := by
  cases x with
  | nothing => exact h.2.2.le
  | rows => exact h.2.2.2.trans_le hx.of_rows.2.1
  | failure =>
    rcases hc with hc | hc <;> exact absurd (h.symm.trans hc) Phase.noConfusion

end Cursor

namespace Plan

variable {p : Plan ω} {e : Engine ω} {hub : Nat} {frames : List Frame}

/-- The course of an execution, of which only this much is said: that its frames are sieved. -/
def sieveCourse (p : Plan ω) (hub : Nat) (e : Engine ω) (frames : List Frame) : Course ω Unit :=
  p.course hub e frames (fun _ => ()) (fun _ => ()) fun j rows _ =>
    rows.Sublist (p.source.order.items ((p.source.directory frames).rowCount
      (p.source.order.itemAt (p.source.directory frames).frames.size j)))

lemma sieves_sieveCourse : (p.sieveCourse hub e frames).Sieves := fun _ _ _ h => h

/-- A sweep in the order of the source sieves every frame. -/
lemma lawful_sieveCourse (h : p.dispatcher.reducer = .filtering p.source.order) :
    (p.sieveCourse hub e frames).Lawful := by
  refine ⟨rfl, fun j _ epoch w result w' _ hred => ⟨?_, rfl⟩⟩
  have hfilter : (p.sieveCourse hub e frames).work.reducer = .filtering p.source.order := h
  rw [hfilter] at hred
  show ((_ : Task ω).finish result).rows.Sublist _
  rw [(Task.finish_filtering hred rfl).1]
  exact Filter.rows_sweep_sublist ..

end Plan

namespace Workshop

variable {W V : Workshop ω} {F : List Lease} {H : List Place} {n plan : String} {hub : Nat}
  {S : Course ω Unit} {c : OpenCursor} {a : Deed ω} {as : List (Deed ω)} {p : Plan ω}
  {frames : List Frame} {rows : List RowView}

/-! ## Rows of a pass -/

/-- The rows that a cursor has delivered, and those at hand as long as it is open, are rows of its
course, each of them once. -/
structure Strolls (W : Workshop ω) (n : String) (S : Course ω Unit) (rows : List RowView) :
    Prop where
  reads : ∃ c d k, W.Reader n S c d k ∧
    (c.cursor.IsOpen → c.cursor.position ≤ S.count ∧
      (rows ++ c.cursor.atHand).Sublist (S.visits c.cursor.position))
  delivered : rows.Sublist (S.visits S.count)

namespace Strolls

/-- A cursor that moves on delivers a row at hand, or the first row of a frame ahead. -/
lemma next (hS : S.Lawful) (hsieves : S.Sieves) (h : W.Sound F H) (hd : W.Strolls n S rows) :
    (W.after (.next n)).Strolls n S (W.tally n rows (.next n)) := by
  obtain ⟨⟨c, d, k, hr, hrest⟩, hbefore⟩ := hd
  have hs := hr.sound h
  have hr' := hr.turn h rfl .next (hr.reads.next hS hs)
  have hanswer := answer_eq hr.cursor hr.scan
  have htally : W.tally n rows (.next n) = rows ++ (W.answer n).2.toList := if_pos rfl
  rw [htally, hanswer]
  rcases hr.reads.next_cases hS hs with
    ⟨hc, hn⟩ | ⟨row, rest, hc, hr₀, hn⟩ | ⟨hc, hr₀, x, hx, hseek⟩
  · rw [hn] at hr' ⊢
    exact ⟨⟨_, _, _, hr', fun hopen => absurd hopen hc⟩, by simpa [Cursor.answer] using hbefore⟩
  · obtain ⟨hle, hall⟩ := hrest hc
    have hall : (rows ++ [c.cursor.view.atRow row] ++ rest.map c.cursor.view.atRow).Sublist
        (S.visits c.cursor.position) := by
      simpa [Cursor.atHand, hr₀] using hall
    rw [hn] at hr' ⊢
    exact ⟨⟨_, _, _, hr', fun _ => ⟨hle, hall⟩⟩,
      ((List.sublist_append_left ..).trans hall).trans (Course.visits_sublist hle)⟩
  · obtain ⟨-, hall⟩ := hrest hc
    cases x with
    | nothing | failure =>
      obtain ⟨c', s', hn, hphase, -⟩ := hseek
      rw [hn] at hr' ⊢
      refine ⟨⟨_, _, _, hr', fun hopen => ?_⟩, by simpa [Cursor.answer] using hbefore⟩
      rcases hopen with hp | hp <;> exact absurd (hphase.symm.trans hp) Phase.noConfusion
    | rows b row rest =>
      obtain ⟨hab, hb, hfound⟩ := hx.of_rows
      obtain ⟨c', s', hn, -, hframe, hrow, hrest', hposition, hreads⟩ := hseek
      rw [hn] at hr' ⊢
      -- the frame brings the row that is delivered and those that are at hand then
      have hview : ∀ r, c'.view.atRow r = (S.work.view.atFrame (S.frame b)).atRow r := by
        intro r
        rw [hreads.view, hframe]
        rfl
      have hhand : [c'.view] ++ c'.atHand =
          (row :: rest).map (S.work.view.atFrame (S.frame b)).atRow := by
        rw [Cursor.atHand, hrest', funext hview, List.map_cons, ← hview, ← hrow]
        rfl
      have hall' : (rows ++ [c'.view] ++ c'.atHand).Sublist (S.visits (b + 1)) := by
        have hvisit := (hsieves _ _ _ hfound).map (S.work.view.atFrame (S.frame b)).atRow
        have hbefore' := ((List.sublist_append_left ..).trans hall).trans
          (Course.visits_sublist hab)
        rw [S.visits_succ, List.append_assoc, hhand]
        exact hbefore'.append hvisit
      exact ⟨⟨_, _, _, hr', fun _ => ⟨hposition ▸ hb, hposition ▸ hall'⟩⟩,
        ((List.sublist_append_left ..).trans hall').trans (Course.visits_sublist hb)⟩

/-- A cursor that starts over has delivered nothing in its new pass. -/
lemma rewind (hS : S.Lawful) (hsieves : S.Sieves) (h : W.Sound F H) (hd : W.Strolls n S rows) :
    (W.after (.rewindCursor n)).Strolls n S (W.tally n rows (.rewindCursor n)) := by
  obtain ⟨⟨c, d, k, hr, hrest⟩, hbefore⟩ := hd
  have hs := hr.sound h
  have hr' := hr.turn (T := S) h rfl .rewind (hr.reads.rewind_reads hS (fun _ => rfl) hs)
  by_cases hphase : c.cursor.phase = .iterating ∨ c.cursor.phase = .exhausted
  · have htally : W.tally n rows (.rewindCursor n) = [] :=
      if_pos ⟨rfl, (hasMoved_iff hr.cursor).2 hphase⟩
    rw [htally]
    refine ⟨⟨_, _, _, hr', fun hopen => ?_⟩, List.nil_sublist _⟩
    have hS' : (S.again S.state S.found).Lawful := hS
    rcases hr.reads.rewind hS' (fun _ => rfl) hs hphase with
      ⟨-, -, -, shard, waited, c', s', hn, hp, -⟩ | ⟨-, x, hx, c', s', hn, hp, hreads⟩ <;>
      rw [hn] at hopen ⊢
    · rcases hopen with ho | ho <;> exact absurd (hp.symm.trans ho) Phase.noConfusion
    · exact ⟨hp.position_le hx hopen, hp.atHand_sublist hsieves hx hreads hopen⟩
  · have htally : W.tally n rows (.rewindCursor n) = rows :=
      if_neg fun hn => hphase ((hasMoved_iff hr.cursor).1 hn.2)
    rw [htally]
    rw [Cursor.rewind_of_still hphase] at hr'
    exact ⟨⟨_, _, _, hr', hrest⟩, hbefore⟩

/-- Every deed keeps a stroll going. -/
lemma after (hS : S.Lawful) (hsieves : S.Sieves) (h : W.Sound F H) (hd : W.Strolls n S rows)
    (hp : W.Permits a) (hdrop : a ≠ .dropCursor n) :
    (W.after a).Strolls n S (W.tally n rows a) := by
  by_cases hme : a.cursor? = some n
  · rcases Deed.cursor?_cases hme with rfl | rfl | rfl | rfl
    · exact hd.next hS hsieves h
    · exact hd.rewind hS hsieves h
    · obtain ⟨⟨c, d, k, hr, -⟩, hbefore⟩ := hd
      obtain ⟨hok, hreads⟩ := hr.reads.close (hr.sound h)
      refine ⟨⟨_, _, _, hr.turn h rfl .close hreads, fun hopen => ?_⟩, hbefore⟩
      have hclosed := Cursor.phase_close hok
      rcases hopen with hp | hp <;> exact absurd (hclosed.symm.trans hp) Phase.noConfusion
    · exact absurd rfl hdrop
  · obtain ⟨⟨c, d, k, hr, hrest⟩, hbefore⟩ := hd
    rw [tally_of_ne hme]
    exact ⟨⟨c, d, k, hr.after hS h hp (W.spares_unit a) hme, hrest⟩, hbefore⟩

lemma run (hS : S.Lawful) (hsieves : S.Sieves) (hW : W.Reached H) (hd : W.Strolls n S rows)
    (hrun : Run (fun V a => V.Permits a ∧ a ≠ .dropCursor n) W as V) :
    V.Strolls n S (Workshop.delivered n W rows as) := by
  induction hrun generalizing H rows with
  | nil => exact hd
  | cons here _ ih =>
    obtain ⟨F, h⟩ := hW.sound
    exact ih (hW.deed here.1) (hd.after hS hsieves h here.1 here.2)

/-- A cursor on a plan that was opened strolls along the frames of the plan. -/
lemma opened (hW : W.Reached H) (hp : W.Permits (.openCursor plan n hub))
    (hopen : ((Session.openCursor plan n hub).on W).1 = .ok ()) :
    ∃ S : Course ω Unit, S.Lawful ∧ S.Sieves ∧
      (W.after (.openCursor plan n hub)).Strolls n S [] := by
  obtain ⟨F, h⟩ := hW.sound
  cases hpl : W.plans.find? plan with
  | none => simp [Session.openCursor, Session.on_bind, Session.on_named, hpl] at hopen
  | some p =>
    have hout := hopen
    rw [Session.fst_openCursor hpl hp.2.1] at hout
    obtain ⟨-, -, hidle⟩ := h.vacant hp.1 hpl
    obtain ⟨c, hc⟩ : ∃ c, (p.openCursor hub W.engine).1 = .ok c := by
      cases hc : (p.openCursor hub W.engine).1 with
      | error stop => rw [hc] at hout; cases hout
      | ok c => exact ⟨c, rfl⟩
    obtain ⟨frames, w, hw, hfit⟩ := Plan.openCursor_supplied hidle hc
    have hS : (p.sieveCourse hub W.engine frames).Lawful :=
      Plan.lawful_sieveCourse (h.reducer_eq hpl)
    rcases Reader.opened h hp hpl hw hfit hS (fun _ _ _ _ _ _ => leaves_unit ..)
      (fun _ _ _ _ _ => leaves_unit ..) rfl with ⟨-, -, shard, waited, hsat⟩ | ⟨-, x, hx, hx', hok⟩
    · rw [hopen] at hsat
      cases hsat
    · obtain ⟨c, d, k, hr, hpoised⟩ := hok (hx'.symm.trans hopen)
      exact ⟨_, hS, Plan.sieves_sieveCourse, ⟨_, d, k, hr, fun ho =>
        ⟨hpoised.position_le hx ho,
          hpoised.atHand_sublist Plan.sieves_sieveCourse hx hr.reads ho⟩⟩, List.nil_sublist _⟩

/-- All rows of a course show the same frames, and so does a cursor that strolls along it. -/
lemma moveTo_eq (hd : W.Strolls n S rows) (hc : W.cursors.find? n = some c) {v : RowView} {b : Nat}
    (hv : v ∈ S.visits b) (i : RowId) : c.cursor.view.moveTo i = v.moveTo i := by
  obtain ⟨⟨c', d, k, hr, -⟩, -⟩ := hd
  obtain rfl := Option.some.inj (hc.symm.trans hr.cursor)
  obtain ⟨j, -, hvj⟩ := List.mem_flatMap.1 hv
  obtain ⟨row, -, rfl⟩ := List.mem_map.1 hvj
  rw [hr.reads.view]
  rfl

end Strolls

/-- The rows that a cursor on a plan delivers in one pass and whose addresses fit have ids of their
own.  Whenever a view of the cursor is taken, and however it was moved, it shows at the id of such
a row what the cursor showed there at delivery. -/
theorem revisits (hW : W.Reached H) (hp : W.Permits (.openCursor plan n hub))
    (hopen : ((Session.openCursor plan n hub).on W).1 = .ok ())
    (hrun : Run (fun V a => V.Permits a ∧ a ≠ .dropCursor n)
      (W.after (.openCursor plan n hub)) as V) :
    ((delivered n (W.after (.openCursor plan n hub)) [] as).Pairwise fun u v =>
      u.Addressable → v.Addressable → u.id ≠ v.id) ∧
    ∀ v ∈ delivered n (W.after (.openCursor plan n hub)) [] as, v.Addressable →
      ∀ bs U c, Run (fun V a => V.Permits a ∧ a ≠ .dropCursor n)
          (W.after (.openCursor plan n hub)) bs U → U.cursors.find? n = some c →
        ∀ (ids : List RowId) (field : Field),
          ((ids.foldl RowView.moveTo c.cursor.view).moveTo v.id).read field = v.read field := by
  obtain ⟨S, hS, hsieves, hd⟩ := Strolls.opened hW hp hopen
  have hreached := hW.deed hp
  have hrows := (hd.run hS hsieves hreached hrun).delivered
  refine ⟨?_, fun v hv hfit bs U c hbs hc ids field => ?_⟩
  · refine (S.pairwise_visits.sublist hrows).imp fun hne hu hv hid => hne ?_
    exact RowView.address_eq_of_id_eq hu hv hid
  · rw [RowView.foldl_moveTo, (hd.run hS hsieves hreached hbs).moveTo_eq hc (hrows.subset hv),
      RowView.moveTo_id _ hfit]
    rfl

/-! ## Whole numbers, one in a frame -/

/-- A table of whole numbers with one row in a frame. -/
def sparse (vs : List Int64) : Table :=
  { Table.ofSchema whole { frameRows := some 1 } with
    partitions := #[.ofColumns [pushedLongs vs]] }

/-- The small workshop with a plan on such a table. -/
def onSparse (vs : List Int64) : Workshop Unit :=
  small.after (.addPlan "p" (sparse vs).toSource keepAll)

lemma reached_onSparse (vs : List Int64) : (onSparse vs).Reached [] :=
  reached_small.deed (a := .addPlan "p" (sparse vs).toSource keepAll) fun _ _ hc => nomatch hc

lemma permits_onSparse (vs : List Int64) : (onSparse vs).Permits (.openCursor "p" "c" 0) :=
  ⟨fun _ _ hc => (nomatch hc), rfl, Nat.one_pos⟩

/-- The reading of a row whose only value is a whole number. -/
lemma read_of_values {v : RowView} {x : Int64} (htypes : v.directory.types = whole.types)
    (h : v.values = .ok [.long x]) : v.read (.cell .long 0) = .ok (.cell (.long x)) := by
  rw [values_of_whole htypes] at h
  rw [RowView.read]
  cases hcell : v.cell .long 0 with
  | error fault => rw [hcell] at h; cases h
  | ok y =>
    rw [hcell] at h
    obtain rfl : y = .long x := List.singleton_inj.1 (Except.ok.inj h)
    rfl

/-- No ring is saturated before anything was opened. -/
lemma not_saturated_onSparse (vs : List Int64) (ring : Nat) :
    ¬ (onSparse vs).engine.Saturated ring := by
  rintro ⟨r, hr, hfull⟩
  have hr : small.engine.rings[ring]? = some r := hr
  obtain rfl : r = .ofCapacity 0 2 := by
    cases ring with
    | zero => exact (Option.some.inj hr).symm
    | succ ring => cases hr
  exact absurd hfull (by decide)

/-- Every frame has one row. -/
lemma exists_frames_sparse {vs : List Int64} (hne : vs ≠ []) (hlen : vs.length < 1 <<< 60) :
    ∃ fs, (sparse vs).frames = .ok fs ∧
      Table.ShowRows whole.types fs (vs.map fun v => [.long v]) ∧ ∀ f ∈ fs, f.rowCount = 1 := by
  have hrows : (pushedLongs vs).rows = vs.length := by
    rw [(holds_pushedLongs vs).rows_eq, List.length_map]
  have hmisfit : (sparse vs).misfit? [pushedLongs vs] = none := by
    simp [Table.misfit?, Table.firstMisfit, Table.rowCountOf, sparse, Table.ofSchema, whole,
      Schema.size, type_pushedLongs, List.range_succ]
  have hfilled := Table.filled_of_misfit hmisfit (.cons (holds_pushedLongs vs) .nil)
  have hmemory : ∀ b ∈ [pushedLongs vs], b.memory.size < 1 <<< 63 := by
    intro b hb
    rw [List.mem_singleton.1 hb, (holds_pushedLongs vs).full, hrows, type_pushedLongs]
    simp only [ColumnType.width, Nat.shiftLeft_eq] at hlen ⊢
    omega
  obtain ⟨fs, hfs, htiles⟩ := Table.exists_tiles (t := sparse vs) Nat.one_pos
    (show 1 < 1 <<< 64 by decide) hfilled hmemory 0
  refine ⟨fs, ?_, ?_, ?_⟩
  · have hpart : (sparse vs).partitions = #[.ofColumns [pushedLongs vs]] := rfl
    simp [Table.frames, hpart, hfs, List.range_succ, bind, Except.bind, pure, Except.pure]
  · have hrowsOf : rowsOf [vs.map .long] = vs.map fun v => [.long v] := by
      refine List.ext_getElem (by simp [rowsOf]) fun i hi hi' => ?_
      rw [List.length_map] at hi'
      simp [rowsOf, rowAt, hi']
    exact hrowsOf ▸ htiles.showRows hfilled
  · -- a range of at most one row that is not empty
    intro f hf
    have hsome : 0 < Table.rowCountOf [pushedLongs vs] := by
      show 0 < (pushedLongs vs).rows
      rw [hrows]
      exact List.length_pos_of_ne_nil hne
    obtain ⟨hpos, hle⟩ := htiles.tiled.bounds hsome f.range (List.mem_map_of_mem hf)
    exact Nat.le_antisymm hle hpos

/-- The calls of a follower on whom nobody else intrudes deliver what is ahead. -/
lemma Follows.delivered_replicate {R : Route Unit} {i : Itinerary} {k : Nat} (hW : W.Reached H)
    (hf : W.Follows n R (fun _ => ()) c i) (hk : k ≤ i.rows.length) :
    Workshop.delivered n W rows (List.replicate k (.next n)) = rows ++ i.rows.take k := by
  induction k generalizing W H c i rows with
  | zero => simp [Workshop.delivered]
  | succ k ih =>
    obtain ⟨F, h⟩ := hW.sound
    obtain ⟨hanswer, c', hf', -⟩ := hf.next h
    obtain ⟨_ | ⟨v, ahead⟩, failure⟩ := i
    · cases hk
    · have htally : W.tally n rows (.next n) = rows ++ [v] := by
        rw [tally, if_pos rfl, hanswer]
        rfl
      have hrest : Workshop.delivered n (W.after (.next n)) (rows ++ [v])
          (List.replicate k (.next n)) = rows ++ [v] ++ ahead.take k :=
        ih (hW.deed (a := .next n) trivial) hf' (Nat.le_of_succ_le_succ hk)
      rw [List.replicate_succ, Workshop.delivered, htally, hrest, List.append_assoc]
      rfl

lemma rows_of_single {T : Tour}
    (hone : ∀ frame < T.count, T.view.directory.rowCount frame = 1) :
    T.rows = (List.range T.count).map fun frame => (T.view.atFrame frame).atRow 0 := by
  rw [Tour.rows, List.map_eq_flatMap]
  refine List.flatMap_congr fun frame hframe => ?_
  rw [hone frame (List.mem_range.1 hframe)]
  rfl

lemma ahead_of_keep {T : Tour} (ho : T.order = .ascending) :
    T.ahead (.ofVerdict fun _ => .keep) () 0 = { rows := T.rows } := by
  rw [T.ahead_ofVerdict, Tour.pass_of_answers fun _ _ => rfl]
  simp [ho, Order.arrange]

/-- A cursor over such a table delivers each of its rows, from a frame of its own. -/
lemma delivered_sparse (vs : List Int64) (hne : vs ≠ []) (hlen : vs.length < 1 <<< 60) :
    ((Session.openCursor "p" "c" 0).on (onSparse vs)).1 = .ok () ∧ ∃ view : RowView,
      delivered "c" ((onSparse vs).after (.openCursor "p" "c" 0)) []
          (List.replicate vs.length (.next "c")) =
        (List.range vs.length).map (fun frame => (view.atFrame frame).atRow 0) ∧
      ∀ (i : Nat) (v : Int64), vs[i]? = some v →
        ((view.atFrame i).atRow 0).read (.cell .long 0) = .ok (.cell (.long v)) := by
  obtain ⟨fs, hfs, hshow, hone⟩ := exists_frames_sparse hne hlen
  let p : Plan Unit :=
    { source := (sparse vs).toSource, filter := keepAll
      dispatcher := { id := 1, reducer := .filtering .ascending }, inbox := { id := 0 } }
  let T : Tour := p.tour fs
  have hfits : p.source.Fits fs := hshow.fits (t := sparse vs)
  have hsupply : p.source.supply (onSparse vs).engine.world = (.ok fs, ()) :=
    congrArg (Stop.ofFault ·, ()) hfs
  -- the rows of the tour
  have hd : T.view.directory = { types := whole.types, frames := fs.toArray } := hfits.directory
  have hvalues : T.rows.map RowView.values = (vs.map fun v => [.long v]).map .ok :=
    Tour.map_values hd hshow
  have hrows : T.rows = (List.range T.count).map fun frame => (T.view.atFrame frame).atRow 0 := by
    refine rows_of_single fun frame hlt => ?_
    have hsize : T.count = fs.length := by rw [Tour.count, hd, List.size_toArray]
    rw [hsize] at hlt
    rw [Directory.rowCount, hd]
    simp [hlt, hone _ (List.getElem_mem hlt)]
  -- a row to a frame: as many frames as rows
  have hcount : T.count = vs.length := by
    have hlength := congrArg List.length hvalues
    rwa [hrows, List.length_map, List.length_map, List.length_map, List.length_map,
      List.length_range] at hlength
  have hahead : T.ahead (.ofVerdict fun _ => .keep) () 0 = { rows := T.rows } := ahead_of_keep rfl
  -- the opening
  have ho : (onSparse vs).Opening "p" "c" 0 p fs ⟨T, .ofVerdict fun _ => .keep, ()⟩ fun _ => () :=
    ⟨⟨_, reached_onSparse vs⟩, permits_onSparse vs, rfl, congrArg Prod.fst hsupply, hfits, rfl,
      Filter.shows_ofVerdict fun _ _ => rfl, fun _ => rfl, fun _ _ _ _ _ _ => leaves_unit ..,
      fun _ _ _ _ _ => leaves_unit ..⟩
  obtain ⟨hout, hok⟩ :=
    ho.opened.resolve_left fun hfull => not_saturated_onSparse vs _ hfull.1
  have hopen : ((Session.openCursor "p" "c" 0).on (onSparse vs)).1 = .ok () := by
    rw [hout]
    show (T.ahead (.ofVerdict fun _ => .keep) () 0).outcome = _
    rw [hahead]
    cases T.rows <;> rfl
  obtain ⟨c, hf⟩ := hok hopen
  have hlength : T.rows.length = vs.length := by
    rw [hrows, List.length_map, List.length_range, hcount]
  refine ⟨hopen, T.view, ?_, fun i v hi => ?_⟩
  · rw [hf.delivered_replicate ((reached_onSparse vs).deed (permits_onSparse vs))
      (by rw [hahead, hlength]), hahead, List.nil_append, List.take_of_length_le hlength.le,
      hrows, hcount]
  · have hget := congrArg (·[i]?) hvalues
    obtain ⟨hlt, rfl⟩ := List.getElem?_eq_some_iff.1 hi
    refine read_of_values (congrArg Directory.types hd) ?_
    simpa [hrows, hcount, hlt] using hget

/-- After two rows, a new pass and the closing, a view of the cursor still shows the second row at
its id. -/
theorem revisits_sparse :
    ∃ u v : RowView, delivered "c" ((onSparse [7, -1]).after (.openCursor "p" "c" 0)) []
        [.next "c", .next "c"] = [u, v] ∧ u.id ≠ v.id ∧ ∃ U c,
      Run (fun V a => V.Permits a ∧ a ≠ .dropCursor "c")
          ((onSparse [7, -1]).after (.openCursor "p" "c" 0))
          [.next "c", .next "c", .rewindCursor "c", .close "c"] U ∧
        U.cursors.find? "c" = some c ∧ c.cursor.phase = .closed ∧
        (c.cursor.view.moveTo v.id).read (.cell .long 0) = .ok (.cell (.long (-1))) := by
  obtain ⟨hopen, view, hrows, hshown⟩ := delivered_sparse [7, -1] nofun (by decide)
  obtain ⟨V, hV⟩ : ∃ V, Run (fun V a => V.Permits a ∧ a ≠ .dropCursor "c")
      ((onSparse [7, -1]).after (.openCursor "p" "c" 0)) [.next "c", .next "c"] V :=
    ⟨_, .cons ⟨trivial, nofun⟩ (.cons ⟨trivial, nofun⟩ .nil)⟩
  obtain ⟨U, hU, hphase⟩ : ∃ U, Run (fun V a => V.Permits a ∧ a ≠ .dropCursor "c")
      ((onSparse [7, -1]).after (.openCursor "p" "c" 0))
      [.next "c", .next "c", .rewindCursor "c", .close "c"] U ∧
      (U.cursors.find? "c").map (·.cursor.phase) = some .closed :=
    ⟨_, .cons ⟨trivial, nofun⟩ (.cons ⟨trivial, nofun⟩ (.cons ⟨trivial, nofun⟩
      (.cons ⟨trivial, nofun⟩ .nil))), by decide +kernel⟩
  obtain ⟨c, hc, hclosed⟩ := Option.map_eq_some_iff.1 hphase
  have hrows : delivered "c" ((onSparse [7, -1]).after (.openCursor "p" "c" 0)) []
      [.next "c", .next "c"] = [(view.atFrame 0).atRow 0, (view.atFrame 1).atRow 0] := hrows
  have hfit : ∀ frame ≤ 1, ((view.atFrame frame).atRow 0).Addressable :=
    fun frame hframe => ⟨Nat.le_trans hframe (by decide), Nat.zero_le _⟩
  obtain ⟨hids, hreads⟩ := revisits (reached_onSparse [7, -1]) (permits_onSparse [7, -1]) hopen hV
  rw [hrows] at hids hreads
  refine ⟨_, _, hrows, ?_, U, c, hU, hc, hclosed, ?_⟩
  · exact (List.pairwise_pair.1 hids) (hfit 0 (by decide)) (hfit 1 (by decide))
  · refine (hreads _ (by simp) (hfit 1 (by decide)) _ U c hU hc [] (.cell .long 0)).trans ?_
    exact hshown 1 (-1) rfl

/-- A cursor can be called any number of times. -/
lemma exists_run_replicate (k : Nat) (W : Workshop ω) :
    ∃ V, Run (fun V a => V.Permits a ∧ a ≠ .dropCursor n) W (List.replicate k (.next n)) V := by
  induction k generalizing W with
  | zero => exact ⟨W, .nil⟩
  | succ k ih =>
    obtain ⟨V, hV⟩ := ih (W.after (.next n))
    exact ⟨V, .cons ⟨trivial, nofun⟩ hV⟩

/-- A table with more rows than an id has frames, one row in a frame. -/
def overlong : List Int64 := (List.range (RowId.maxFrame + 2)).map Int64.ofNat

/-- The row in the frame past the last one that an id holds has the id of the first row, and a view
that is moved to it shows that one. -/
theorem revisits_astray :
    (∃ H, (onSparse overlong).Reached H) ∧
    (onSparse overlong).Permits (.openCursor "p" "c" 0) ∧
    ((Session.openCursor "p" "c" 0).on (onSparse overlong)).1 = .ok () ∧
    ∃ V, Run (fun V a => V.Permits a ∧ a ≠ .dropCursor "c")
        ((onSparse overlong).after (.openCursor "p" "c" 0))
        (List.replicate overlong.length (.next "c")) V ∧
      ¬ ((delivered "c" ((onSparse overlong).after (.openCursor "p" "c" 0)) []
        (List.replicate overlong.length (.next "c"))).Pairwise fun u v => u.id ≠ v.id) ∧
      ∃ v ∈ delivered "c" ((onSparse overlong).after (.openCursor "p" "c" 0)) []
          (List.replicate overlong.length (.next "c")), ∃ c, V.cursors.find? "c" = some c ∧
        v.read (.cell .long 0) = .ok (.cell (.long 1048576)) ∧
        (c.cursor.view.moveTo v.id).read (.cell .long 0) = .ok (.cell (.long 0)) := by
  have hlength : overlong.length = RowId.maxFrame + 2 := by simp [overlong]
  have hget : ∀ i < RowId.maxFrame + 2, overlong[i]? = some (Int64.ofNat i) := by
    intro i hi
    simp [overlong, hi]
  obtain ⟨hopen, view, hrows, hshown⟩ := delivered_sparse overlong
    (List.ne_nil_of_length_pos (by omega)) (by rw [hlength]; decide)
  obtain ⟨V, hV⟩ := exists_run_replicate (n := "c") overlong.length
    ((onSparse overlong).after (.openCursor "p" "c" 0))
  have hlast : (view.atFrame (RowId.maxFrame + 1)).atRow 0 ∈
      delivered "c" ((onSparse overlong).after (.openCursor "p" "c" 0)) []
        (List.replicate overlong.length (.next "c")) := by
    rw [hrows, hlength]
    exact List.mem_map_of_mem (List.mem_range.2 (by omega))
  have hid : ((view.atFrame (RowId.maxFrame + 1)).atRow 0).id = ((view.atFrame 0).atRow 0).id := by
    show RowId.pack (RowId.maxFrame + 1) 0 = RowId.pack 0 0
    decide
  refine ⟨⟨_, reached_onSparse _⟩, permits_onSparse _, hopen, V, hV, fun hids => ?_,
    _, hlast, ?_⟩
  · rw [hrows, List.pairwise_map, hlength] at hids
    have hne := List.pairwise_iff_getElem.1 hids 0 (RowId.maxFrame + 1) (by simp) (by simp)
      (by omega)
    rw [List.getElem_range, List.getElem_range] at hne
    exact hne hid.symm
  · obtain ⟨S, hS, hsieves, hd⟩ := Strolls.opened (reached_onSparse overlong)
      (permits_onSparse overlong) hopen
    have hd := hd.run hS hsieves ((reached_onSparse overlong).deed (permits_onSparse overlong)) hV
    obtain ⟨c, _, _, hr, -⟩ := hd.reads
    refine ⟨c, hr.cursor, hshown _ _ (hget _ (by omega)), ?_⟩
    rw [hd.moveTo_eq hr.cursor (hd.delivered.subset hlast), hid, RowView.moveTo_id]
    · exact hshown 0 0 (hget 0 (by omega))
    · exact ⟨Nat.zero_le _, Nat.zero_le _⟩

end Workshop

end TableScan
