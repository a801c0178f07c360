import Mathlib.Data.List.Flatten
import TableScan.Proofs.Tours

/-!
# Recordings

A filter that keeps a record of the rows it is asked about, in the order in which it is asked.
Main statement: a sweep over a frame puts its rows on record up to the first one that the filter
does not answer, and finds what one loop over the rows keeps (`Filter.sweep_recording`).
-/

namespace TableScan

variable {ω σ : Type}

namespace Filter

variable {g : Filter σ} {x : σ} {log : List RowView} {v : RowView} {rows : List RowView}

/-- The filter with a record of the rows that it was asked about. -/
def recording (g : Filter σ) : Filter (σ × List RowView) where
  judge v x := ((g.judge v x.1).1, (g.judge v x.1).2, x.2 ++ [v])
  rewind x := (g.rewind x.1, x.2)
  close x := (g.close x.1, x.2)

/-- A filter that is asked about rows up to the first one that it does not answer: the rows that it
was asked about, and its state then. -/
def asked (g : Filter σ) : List RowView → σ → List RowView × σ
  | [], x => ([], x)
  | v :: vs, x =>
      if (g.judge v x).1.answers then
        (v :: (asked g vs (g.judge v x).2).1, (asked g vs (g.judge v x).2).2)
      else ([v], (g.judge v x).2)

/-- A filter that is asked about the rows of one frame after the other. -/
def through (g : Filter σ) : List (List RowView) → σ → List RowView × σ
  | [], x => ([], x)
  | rows :: frames, x =>
      ((g.asked rows x).1 ++ (through g frames (g.asked rows x).2).1,
        (through g frames (g.asked rows x).2).2)

/-- The state and the record of a filter that was asked about the rows of some more frames. -/
def record (g : Filter σ) (frames : List (List RowView)) (x : σ × List RowView) :
    σ × List RowView :=
  ((g.through frames x.1).2, x.2 ++ (g.through frames x.1).1)

/-- The rows that one loop over all rows keeps, up to the first one that the filter does not
answer. -/
def keeps (g : Filter σ) : List RowView → σ → List RowView
  | [], _ => []
  | v :: vs, x =>
      match g.judge v x with
      | (.keep, y) => v :: keeps g vs y
      | (.skip, y) => keeps g vs y
      | (.fails _, _) | (.faults _, _) => []

lemma asked_prefix (g : Filter σ) (rows : List RowView) (x : σ) : (g.asked rows x).1 <+: rows := by
  induction rows generalizing x with
  | nil => exact List.prefix_rfl
  | cons v vs ih =>
    unfold asked
    split
    · exact (List.prefix_cons_inj v).2 (ih _)
    · exact List.prefix_append [v] vs

/-- The rows that a filter was asked about are some of the rows of the frames, in their order. -/
lemma through_sublist (g : Filter σ) (frames : List (List RowView)) (x : σ) :
    ((g.through frames x).1).Sublist frames.flatten := by
  induction frames generalizing x with
  | nil => exact List.Sublist.refl []
  | cons rows frames ih => exact (g.asked_prefix rows x).sublist.append (ih _)

/-- One more frame. -/
lemma record_take_succ {frames : List (List RowView)} {j : Nat} (hj : frames[j]? = some rows)
    (x : σ × List RowView) :
    g.record (frames.take (j + 1)) x =
      ((g.asked rows (g.record (frames.take j) x).1).2,
        (g.record (frames.take j) x).2 ++ (g.asked rows (g.record (frames.take j) x).1).1) := by
  induction frames generalizing j x with
  | nil => cases hj
  | cons head frames ih =>
    cases j with
    | zero =>
      obtain rfl := Option.some.inj hj
      simp [record, through]
    | succ j =>
      have h := ih hj ((g.asked head x.1).2, x.2 ++ (g.asked head x.1).1)
      simpa only [record, List.take_succ_cons, through, List.append_assoc] using h

/-! ## Sweeps on record -/

/-- What a sweep from one row on puts on record, and what it finds beside the rows `kept` before. -/
lemma sweepLast_recording (g : Filter σ) (o : Order) (v : RowView) {n left : Nat}
    (hle : left ≤ n) (kept : List Nat) (x : σ) (log : List RowView) {ahead : List RowView}
    (hahead : ahead = ((o.items n).drop (n - left)).map v.atRow) :
    (g.recording.sweepLast o v n left kept (x, log)).2 =
        ((g.asked ahead x).2, log ++ (g.asked ahead x).1) ∧
      ∀ rows, (g.recording.sweepLast o v n left kept (x, log)).1 = .kept rows →
        (g.asked ahead x).1 = ahead ∧
        ∀ rest, kept.reverse.map v.atRow ++ g.keeps (ahead ++ rest) x =
          rows.map v.atRow ++ g.keeps rest (g.asked ahead x).2 := by
  -- by the rows that are left, whatever those before have kept and recorded
  induction left generalizing kept x log ahead with
  | zero =>
    subst hahead
    have hnil : (o.items n).drop n = [] :=
      List.drop_eq_nil_of_le (by simp [Order.items_eq_map])
    rw [Nat.sub_zero, hnil]
    refine ⟨by simp [sweepLast, asked], fun rows hrows => ⟨rfl, fun rest => ?_⟩⟩
    obtain rfl := Sweep.kept.inj hrows
    rfl
  | succ left ih =>
    have hrow : n - (left + 1) + 1 = n - left := by omega
    rw [Order.drop_items (by omega), hrow, List.map_cons] at hahead
    subst hahead
    rcases hj : g.judge (v.atRow (o.itemAt n (n - (left + 1)))) x with ⟨verdict, y⟩
    have hrec : g.recording.judge (v.atRow (o.itemAt n (n - (left + 1)))) (x, log) =
        (verdict, y, log ++ [v.atRow (o.itemAt n (n - (left + 1)))]) := by
      simp only [recording, hj]
    cases verdict with
    | keep =>
      obtain ⟨hstate, hkept⟩ := ih (by omega) (o.itemAt n (n - (left + 1)) :: kept) y
        (log ++ [v.atRow (o.itemAt n (n - (left + 1)))]) rfl
      simp only [sweepLast, hrec, asked, hj, Verdict.answers, if_true]
      refine ⟨?_, fun rows hrows => ?_⟩
      · rw [hstate, List.append_assoc]
        rfl
      · obtain ⟨hall, hsum⟩ := hkept rows hrows
        refine ⟨congrArg _ hall, fun rest => ?_⟩
        rw [← hsum, List.cons_append, keeps, hj]
        simp
    | skip =>
      obtain ⟨hstate, hkept⟩ := ih (by omega) kept y
        (log ++ [v.atRow (o.itemAt n (n - (left + 1)))]) rfl
      simp only [sweepLast, hrec, asked, hj, Verdict.answers, if_true]
      refine ⟨?_, fun rows hrows => ?_⟩
      · rw [hstate, List.append_assoc]
        rfl
      · obtain ⟨hall, hsum⟩ := hkept rows hrows
        refine ⟨congrArg _ hall, fun rest => ?_⟩
        rw [← hsum, List.cons_append, keeps, hj]
    | fails | faults =>
      simp only [sweepLast, hrec, asked, hj, Verdict.answers, Bool.false_eq_true, if_false, true_and]
      rintro rows ⟨⟩

/-- What a sweep puts on record, and what it finds. -/
lemma sweep_recording (g : Filter σ) (o : Order) (v : RowView) (n : Nat) (x : σ)
    (log : List RowView) :
    (g.recording.sweep o v n (x, log)).2 =
        ((g.asked ((o.items n).map v.atRow) x).2, log ++ (g.asked ((o.items n).map v.atRow) x).1) ∧
      ∀ rows, (g.recording.sweep o v n (x, log)).1 = .kept rows →
        (g.asked ((o.items n).map v.atRow) x).1 = (o.items n).map v.atRow ∧
        ∀ rest, g.keeps ((o.items n).map v.atRow ++ rest) x =
          rows.map v.atRow ++ g.keeps rest (g.asked ((o.items n).map v.atRow) x).2 := by
  simpa [sweep] using sweepLast_recording g o v (Nat.le_refl n) [] x log rfl

end Filter

end TableScan
