import TableScan.CommandLine.Report
import TableScan.Proofs.Crews
import TableScan.Proofs.Quotes

/-!
# Reports

What a run of the command reports.  Main statement: as far as a machine can lay out what is asked
for, the command ends well and reports every partition, every row and every slot, and the rows above
the limit, whatever steps the workers take beside it (`CommandLine.reports_counts`).
-/

namespace TableScan

/-! ## Rows above a limit -/

/-- What is below a number is below every number that is not below it. -/
lemma Binary64.lt_of_lt_of_not_lt {x y z : Binary64} (h : x.lt y = true) (hz : z.isNaN = false)
    (hn : z.lt y = false) : x.lt z = true := by
  simp only [lt, hz, Bool.and_eq_true, Bool.not_eq_true', decide_eq_true_eq] at h ⊢
  simp only [lt, hz, h.1.2, Bool.not_false, Bool.true_and, decide_eq_false_iff_not] at hn
  exact ⟨⟨h.1.1, trivial⟩, by omega⟩

/-- What is not below a number is not below any number below it. -/
lemma Binary64.not_lt_of_lt {x y z : Binary64} (h : z.lt y = true) (hn : x.lt y = false) :
    x.lt z = false := by
  simp only [lt, Bool.and_eq_true, Bool.not_eq_true', decide_eq_true_eq] at h
  cases hx : x.isNaN with
  | true => simp [lt, hx]
  | false =>
    simp only [lt, hx, h.1.2, Bool.not_false, Bool.true_and, decide_eq_false_iff_not] at hn
    simp only [lt, hx, h.1.1, Bool.not_false, Bool.true_and, decide_eq_false_iff_not]
    omega

/-- A quote whose price is a number that is not negative and below a thousand. -/
structure Quote.Modest (q : Quote) : Prop where
  number : q.price.isNaN = false
  nonneg : q.price.lt (.ofRatio 0 0) = false
  below : q.price.lt (.ofRatio 1000 0) = true

lemma Tour.directory_of_mem_pass {T : Tour} {verdict : RowView → Verdict} {v : RowView}
    (h : v ∈ (T.pass verdict).rows) : v.directory = T.view.directory := by
  obtain ⟨part, hpart, hv⟩ := List.mem_flatMap.1 h
  obtain ⟨frame, -, rfl⟩ := List.mem_map.1 ((List.takeWhile_sublist _).subset hpart)
  obtain ⟨row, -, rfl⟩ := List.mem_map.1 (List.mem_filter.1 hv).1
  rfl

namespace CommandLine

/-- Whether the price of a row is above a limit. -/
def isAbove (limit : Binary64) : List Cell → Bool
  | [_, .double price, _] => limit.lt price
  | _ => false

/-- The values of a row with a time, a price and a venue. -/
lemma cells_of_values {v : RowView} {row : List Cell}
    (htypes : v.directory.types = Synthetic.schema.types) (h : v.values = .ok row) :
    ∃ time price venue, row = [time, price, venue] ∧ v.cell .timestamp 0 = .ok time ∧
      v.cell .double 1 = .ok price ∧ v.cell .int 2 = .ok venue := by
  have hzip : v.directory.types.toList.zipIdx = [(.timestamp, 0), (.f64, 1), (.symbol, 2)] := by
    rw [htypes]
    simp [Synthetic.schema, Schema.types]
  rw [RowView.values, hzip] at h
  rcases forall₂_of_mapM h with _ | ⟨htime, _ | ⟨hprice, _ | ⟨hvenue, _ | _⟩⟩⟩
  exact ⟨_, _, _, rfl, htime, hprice, hvenue⟩

/-- The filter judges a row by its price. -/
lemma judge_aboveFilter {limit : Binary64} {v : RowView} {row : List Cell}
    (htypes : v.directory.types = Synthetic.schema.types) (h : v.values = .ok row) :
    ((aboveFilter limit).judge v ()).1 = .ofBool (isAbove limit row) := by
  obtain ⟨time, price, venue, rfl, -, hprice, -⟩ := cells_of_values htypes h
  simp only [aboveFilter, Filter.ofCondition, hprice, ok_bind]
  cases price <;> rfl

/-- The row of a report that tells a quote. -/
def Tells (quotes : Nat → Quote) (place : Nat) (r : ReportRow) : Prop :=
  r.time = Int64.ofNat (place * 1000000) ∧ r.price = (quotes place).price

/-- A view of a quote makes a row of a report. -/
lemma ofView_of_quotes {quotes : Nat → Quote} {place : Nat} {v : RowView} {row : List Cell}
    (htypes : v.directory.types = Synthetic.schema.types) (h : v.values = .ok row)
    (hrow : Synthetic.Quotes quotes place row) :
    ∃ r, ReportRow.ofView v = .ok r ∧ Tells quotes place r := by
  obtain ⟨key, rfl⟩ := hrow
  obtain ⟨time, price, venue, hrow, htime, hprice, hvenue⟩ := cells_of_values htypes h
  obtain ⟨rfl, rfl, rfl, -⟩ : Cell.long (Int64.ofNat (place * 1000000)) = time ∧
      Cell.double (quotes place).price = price ∧ Cell.int key = venue ∧ True := by
    simpa [Synthetic.quoteRow] using hrow
  refine ⟨⟨(v.dictionaries[2]?.join).bind (·.textOf? key), _, _⟩, ?_, rfl, rfl⟩
  simp only [ReportRow.ofView, RowView.text, htime, hprice, hvenue, ok_bind]
  rfl

/-- A report with more rows keeps the first five, and counts all. -/
lemma foldl_add {vs : List RowView} {rs : List ReportRow}
    (h : List.Forall₂ (fun v r => ReportRow.ofView v = .ok r) vs rs) (report : Report) :
    vs.foldl Report.add (.ok report) = .ok { report with
      firstRows := report.firstRows ++ (rs.take (5 - report.firstRows.size)).toArray
      matched := report.matched + vs.length } := by
  induction h generalizing report with
  | nil => simp
  | @cons v r vs rs hv _ ih =>
    rw [List.foldl_cons]
    by_cases hfew : report.firstRows.size < 5
    · have hadd : Report.add (.ok report) v = .ok { report with
          firstRows := report.firstRows.push r, matched := report.matched + 1 } := by
        simp only [Report.add, ok_bind, if_pos hfew, hv]
        rfl
      obtain ⟨k, hk⟩ : ∃ k, 5 - report.firstRows.size = k + 1 :=
        ⟨4 - report.firstRows.size, by omega⟩
      have hk' : 5 - (report.firstRows.push r).size = k := by
        rw [Array.size_push]
        omega
      rw [hadd, ih, hk, hk', List.take_succ_cons, List.length_cons]
      simp [Nat.add_assoc, Nat.add_comm 1]
    · have hadd : Report.add (.ok report) v =
          .ok { report with matched := report.matched + 1 } := by
        simp only [Report.add, ok_bind, if_neg hfew]
        rfl
      have hnone : 5 - report.firstRows.size = 0 := by omega
      rw [hadd, ih, hnone, List.length_cons]
      simp [Nat.add_assoc, Nat.add_comm 1]

/-- Views of quotes make rows of a report. -/
lemma exists_rows {quotes : Nat → Quote} {places : List Nat} {rows : List (List Cell)}
    {vs : List RowView} (htypes : ∀ v ∈ vs, v.directory.types = Synthetic.schema.types)
    (hvs : vs.map RowView.values = rows.map .ok)
    (hrows : List.Forall₂ (Synthetic.Quotes quotes) places rows) :
    ∃ rs, List.Forall₂ (fun v r => ReportRow.ofView v = .ok r) vs rs ∧
      List.Forall₂ (Tells quotes) places rs := by
  induction hrows generalizing vs with
  | nil =>
    obtain rfl := List.map_eq_nil_iff.1 hvs
    exact ⟨[], .nil, .nil⟩
  | cons hrow _ ih =>
    cases vs with
    | nil => cases hvs
    | cons v vs =>
      obtain ⟨hv, hvs⟩ := List.cons.inj hvs
      obtain ⟨r, hr, htells⟩ := ofView_of_quotes (htypes v List.mem_cons_self) hv hrow
      obtain ⟨rs, hrs, htell⟩ := ih (fun v hv => htypes v (List.mem_cons_of_mem _ hv)) hvs
      exact ⟨r :: rs, .cons hr hrs, .cons htells htell⟩

/-- The places of the quotes above a limit, in the order of a table. -/
def above (quotes : Nat → Quote) (limit : Binary64) (order : Order) (count : Nat) : List Nat :=
  order.arrange ((List.range count).filter fun place => limit.lt (quotes place).price)

section Above

variable {quotes : Nat → Quote} {count : Nat} {limit : Binary64}

/-- The quotes above a limit make the rows above it. -/
lemma forall₂_above {rows : List (List Cell)} (order : Order) (limit : Binary64)
    (h : List.Forall₂ (Synthetic.Quotes quotes) (List.range count) rows) :
    List.Forall₂ (Synthetic.Quotes quotes) (above quotes limit order count)
      (order.arrange (rows.filter (isAbove limit))) := by
  have hfilter := List.rel_filter (p := fun place => limit.lt (quotes place).price)
    (q := isAbove limit) (R := Synthetic.Quotes quotes)
    (fun place row ⟨key, hrow⟩ => by rw [hrow]; rfl) h
  cases order with
  | ascending => exact hfilter
  | descending => exact List.forall₂_reverse_iff.2 hfilter

/-- All modest quotes are above a limit below zero. -/
lemma above_of_low (hmodest : ∀ place < count, (quotes place).Modest)
    (hlow : limit.lt (.ofRatio 0 0) = true) (order : Order) :
    above quotes limit order count = order.arrange (List.range count) := by
  refine congrArg order.arrange (List.filter_eq_self.2 fun place hplace => ?_)
  have hquote := hmodest place (List.mem_range.1 hplace)
  exact Binary64.lt_of_lt_of_not_lt hlow hquote.number hquote.nonneg

/-- No modest quote is above a limit that is not below a thousand. -/
lemma above_of_high (hmodest : ∀ place < count, (quotes place).Modest)
    (hhigh : limit.lt (.ofRatio 1000 0) = false) (order : Order) :
    above quotes limit order count = [] := by
  rw [above, List.filter_eq_nil_iff.2 fun place hplace => ?_, Order.arrange_nil]
  have hquote := hmodest place (List.mem_range.1 hplace)
  rw [Binary64.not_lt_of_lt hquote.below hhigh]
  exact Bool.false_ne_true

end Above

section Made

variable {quotes : Nat → Quote} {count rows : Nat} {settings : Settings} {order : Order}
  {t : Table} {frames : List Frame} {quoted : List (List Cell)}

/-- A pass over a table of quotes finds the ones above the limit, and they make rows of a report. -/
lemma exists_found (hmade : Synthetic.Made quotes count rows settings order t frames quoted)
    (limit : Binary64) :
    ∃ vs rs, ((t.toSource : Source Unit).tour frames).pass
        (fun v => ((aboveFilter limit).judge v ()).1) = { rows := vs } ∧
      List.Forall₂ (fun v r => ReportRow.ofView v = .ok r) vs rs ∧
      List.Forall₂ (Tells quotes) (above quotes limit order (count * rows)) rs := by
  have hjudge : ∀ v row, v.Shows t.schema t.dictionaries row →
      ((aboveFilter limit).judge v ()).1 = .ofBool (isAbove limit row) := fun v row h =>
    judge_aboveFilter (h.types.trans (congrArg Schema.types hmade.schema)) h.values
  obtain ⟨vs, hpass, hvs⟩ := hmade.shown.pass (ω := Unit) hjudge
  have htypes : ∀ v ∈ vs, v.directory.types = Synthetic.schema.types := by
    intro v hv
    have hview := Tour.directory_of_mem_pass (v := v) (by rw [hpass]; exact hv)
    have hdirectory := (hmade.shown.fits (ω := Unit)).directory
    rw [hview, ← hmade.schema]
    exact congrArg Directory.types hdirectory
  rw [hmade.order] at hvs
  obtain ⟨rs, hrs, htells⟩ := exists_rows htypes hvs (forall₂_above order limit hmade.quotes)
  exact ⟨vs, rs, hpass, hrs, htells⟩

/-- What a report says of a table of quotes: the first five of the places at which a row was found,
how many there are, and how many slots were leased and given back. -/
structure Report.Says (r : Report) (quotes : Nat → Quote) (places : List Nat) (slots : Nat) :
    Prop where
  firstRows : List.Forall₂ (Tells quotes) (places.take 5) r.firstRows.toList
  matched : r.matched = places.length
  tally : r.tally = ⟨slots, slots⟩

/-- A scan of a table of quotes finds the ones above the limit, whatever its workers do beside it. -/
lemma scanTable_says (hmade : Synthetic.Made quotes count rows settings order t frames quoted)
    (hlaid : settings.layOut = .ok ()) (limit : Binary64) (rota : Rota) :
    ∃ r, scanTable t settings limit rota = .ok r ∧
      r.Says quotes (above quotes limit order (count * rows)) frames.length := by
  obtain ⟨vs, rs, hpass, hrs, htells⟩ := exists_found hmade limit
  have hsupply : (t.toSource : Source Unit).supply () = (.ok frames, ()) :=
    congrArg (Stop.ofFault · , ()) hmade.supplied
  obtain ⟨e, S, c, s, hadd, ho, hS, hcount, hc, htracks⟩ :=
    Plan.exists_openCursor_tracks hlaid (fun _ _ => rfl) hsupply hmade.shown.fits hpass
  -- before the cursor is opened there is nothing to do for the crew
  rcases hcrew : (Crew.start 0 settings).work e (rota 0) with ⟨crew, e'⟩
  obtain rfl : e' = e := (congrArg Prod.snd hcrew).symm.trans
    (Engine.work_of_idle (Engine.pendingIn_addHub? hadd) ..)
  rcases hbeside : crew.workBeside s (rota 1) with ⟨crew', u⟩
  have hwork := htracks.workBeside hS.lawful crew (rota 1)
  have hinbox : u.inbox = s.inbox := congrArg (·.2.inbox) hbeside.symm
  rw [hbeside] at hwork
  obtain ⟨c', s', hfold, htally, hclose⟩ :=
    hwork.foldBeside hS hc Report.add (.ok {}) (fun n => rota (n + 2)) crew'
  have hreport : vs.foldl Report.add (.ok {}) =
      .ok { firstRows := (rs.take 5).toArray, matched := vs.length } := by
    simp [foldl_add hrs]
  rw [hreport] at hfold
  refine ⟨{ firstRows := (rs.take 5).toArray, matched := vs.length,
            tally := ⟨frames.length, frames.length⟩ }, ?_, ?_, ?_, rfl⟩
  · rw [hinbox] at htally
    have htally' :
        s'.engine.tally ((Plan.make t.toSource (aboveFilter limit) e').1.ofScan s).inbox.id =
          ⟨frames.length, frames.length⟩ := hcount ▸ htally
    have hbeside' : crew.workBeside
        (((Plan.make t.toSource (aboveFilter limit) e').1.ofScan s).scan s.engine) (rota 1) =
          (crew', u) := hbeside
    simp only [scanTable, hadd, Stop.ofFault, ok_bind, hcrew, ho, hbeside', hfold, hclose, htally']
    rfl
  · rw [List.toList_toArray]
    exact List.forall₂_take 5 htells
  · exact hrs.length_eq.trans htells.length_eq.symm

end Made

/-! ## Runs -/

variable {o : Options} {quotes : Nat → Quote}

/-- A run reports the rows above its limit, as far as a machine can lay out what is asked for. -/
lemma exists_report (quotes : Nat → Quote) (rota : Rota)
    (hsize : o.partitions * o.rowsPerPartition * 1000000 < 1 <<< 63)
    (hword : o.settings.rowsPerFrame < 1 <<< 64) (hlist : layOut o.partitions 24 = .ok ())
    (hlaid : o.settings.layOut = .ok ()) :
    ∃ r, runLaidOut o quotes rota =
        ⟨some (o.partitions, o.partitions * o.rowsPerPartition), .ok r⟩ ∧
      r.Says quotes (above quotes o.minPrice o.order (o.partitions * o.rowsPerPartition))
        (o.partitions * Table.cuts o.settings.rowsPerFrame o.rowsPerPartition) := by
  obtain ⟨t, frames, quoted, htable, hmade⟩ :=
    Synthetic.exists_table quotes hsize hword o.order
  obtain ⟨r, hr, htold⟩ := scanTable_says hmade hlaid o.minPrice rota
  refine ⟨r, ?_, hmade.length ▸ htold⟩
  have htable : o.table quotes = .ok t := htable
  simp only [runLaidOut, hlist, hlaid, Stop.ofFault, ok_bind, htable, Outcome.ofTable,
    hmade.partitions, hmade.rowCount, hr]

lemma Tells.time_eq {place : Nat} {r : ReportRow} (h : Tells quotes place r)
    (hplace : place * 1000000 < 1 <<< 63) : r.time.toInt = place * 1000000 := by
  rw [h.1, Int64.toInt_ofNat_of_lt hplace]
  omega

lemma times_eq {places : List Nat} {rs : List ReportRow} (h : List.Forall₂ (Tells quotes) places rs)
    (hplaces : ∀ place ∈ places, place * 1000000 < 1 <<< 63) :
    rs.map (·.time.toInt) = places.map fun (place : Nat) => (place * 1000000 : Int) := by
  induction h with
  | nil => rfl
  | cons hr _ ih =>
    rw [List.map_cons, List.map_cons, hr.time_eq (hplaces _ List.mem_cons_self),
      ih fun place hp => hplaces place (List.mem_cons_of_mem _ hp)]

/-- The counts that a run reports.  As far as a machine can lay out the list of the partitions, the
rings and the places of the workers, a run over modest quotes ends well.  It has made every row that
was asked for, and has leased and given back a slot for every frame.  Every row is above a limit
below zero, and the first rows are then the first ones in the order of the run; no row is above a
limit that is not below a thousand.  All this holds for every rota, that is, whatever steps any of
the workers take before the cursor is opened and after each of its calls. -/
theorem reports_counts (quotes : Nat → Quote) (rota : Rota)
    (hsize : o.partitions * o.rowsPerPartition * 1000000 < 1 <<< 63)
    (hword : o.settings.rowsPerFrame < 1 <<< 64) (hlist : layOut o.partitions 24 = .ok ())
    (hlaid : o.settings.layOut = .ok ())
    (hmodest : ∀ place < o.partitions * o.rowsPerPartition, (quotes place).Modest) :
    ∃ r, runLaidOut o quotes rota =
        ⟨some (o.partitions, o.partitions * o.rowsPerPartition), .ok r⟩ ∧
      (runLaidOut o quotes rota).exitCode = 0 ∧
      r.tally.claimed = o.partitions * Table.cuts o.settings.rowsPerFrame o.rowsPerPartition ∧
      r.tally.released = o.partitions * Table.cuts o.settings.rowsPerFrame o.rowsPerPartition ∧
      (o.minPrice.lt (.ofRatio 0 0) = true →
        r.matched = o.partitions * o.rowsPerPartition ∧
        r.firstRows.toList.map (·.time.toInt) =
          ((o.order.arrange (List.range (o.partitions * o.rowsPerPartition))).take 5).map
            fun (place : Nat) => (place * 1000000 : Int)) ∧
      (o.minPrice.lt (.ofRatio 1000 0) = false → r.matched = 0 ∧ r.firstRows = #[]) := by
  obtain ⟨r, hrun, htold⟩ := exists_report quotes rota hsize hword hlist hlaid
  have hexit : (runLaidOut o quotes rota).exitCode = 0 := by
    rw [hrun]
    rfl
  refine ⟨r, hrun, hexit, congrArg Tally.claimed htold.tally, congrArg Tally.released htold.tally,
    fun hlow => ?_, fun hhigh => ?_⟩
  · rw [above_of_low hmodest hlow] at htold
    refine ⟨?_, times_eq htold.firstRows fun place hplace => ?_⟩
    · rw [htold.matched, Order.length_arrange, List.length_range]
    · have hlt := List.mem_range.1 (Order.mem_arrange.1 (List.mem_of_mem_take hplace))
      exact Nat.lt_of_le_of_lt (Nat.mul_le_mul_right _ (Nat.le_of_lt hlt)) hsize
  · rw [above_of_high hmodest hhigh] at htold
    obtain ⟨hfirst, hmatched, -⟩ := htold
    refine ⟨hmatched, ?_⟩
    rw [List.take_nil, List.forall₂_nil_left_iff] at hfirst
    exact Array.toList_eq_nil_iff.1 hfirst

/-- The same quote over and over. -/
def alike : Nat → Quote := fun _ => ⟨.ofRatio 1 0, "LSE"⟩

lemma modest_alike (place : Nat) : (alike place).Modest := by
  show Quote.Modest ⟨.ofRatio 1 0, "LSE"⟩
  exact ⟨by decide, by decide, by decide⟩

/-- Two partitions of three rows from the end, with frames of two rows and no limit. -/
def unlimited : Options :=
  { partitions := 2, rowsPerPartition := 3, settings := { frameRows := some 2 },
    minPrice := .ofFields true (2047 <<< 52), descending := true }

/-- After each call the first worker and the last one take two steps in turn. -/
def pairing : Rota := fun _ => [0, 3, 0, 3]

/-- A run without a limit finds everything, with two workers at work beside it. -/
theorem reports_counts_unlimited :
    ∃ r, runLaidOut unlimited alike pairing = ⟨some (2, 6), .ok r⟩ ∧
      r.tally.claimed = 4 ∧ r.tally.released = 4 ∧ r.matched = 6 ∧
      r.firstRows.toList.map (·.time.toInt) = [5000000, 4000000, 3000000, 2000000, 1000000] := by
  obtain ⟨r, hrun, -, hclaimed, hreleased, hall, -⟩ := reports_counts (o := unlimited) alike
    pairing (by decide) (by decide) (by decide) (by with_unfolding_all rfl)
    fun place _ => modest_alike place
  obtain ⟨hmatched, htimes⟩ := hall (by decide)
  exact ⟨r, hrun, hclaimed, hreleased, hmatched, htimes⟩

/-- One row above the limit, in rings of as many slots as can be asked for. -/
def oversized : Options :=
  { partitions := 1, rowsPerPartition := 1, minPrice := .ofFields true (1023 <<< 52)
    settings := { ringCapacity := some (1 <<< 63), workforce := some 0 } }

/-- No machine lays out rings of that many slots: the run makes its table and then panics. -/
theorem not_reported :
    oversized.partitions * oversized.rowsPerPartition * 1000000 < 1 <<< 63 ∧
      (∀ place, (alike place).Modest) ∧
      ∀ rota, (runLaidOut oversized alike rota).generated = some (1, 1) ∧
        (runLaidOut oversized alike rota).exitCode = 101 := by
  have hsize : oversized.partitions * oversized.rowsPerPartition * 1000000 < 1 <<< 63 := by decide
  have hword : oversized.settings.rowsPerFrame < 1 <<< 64 := by decide
  refine ⟨hsize, modest_alike, fun rota => ?_⟩
  obtain ⟨t, frames, quoted, htable, hmade⟩ :=
    Synthetic.exists_table alike hsize hword oversized.order
  have htable : oversized.table alike = .ok t := htable
  have hlist : layOut oversized.partitions 24 = .ok () := by decide
  have hlaid : oversized.settings.layOut = .error .overflow := by with_unfolding_all rfl
  have hrun : runLaidOut oversized alike rota = ⟨some (1, 1), .error (.faulted .overflow)⟩ := by
    simp only [runLaidOut, hlist, hlaid, Stop.ofFault, ok_bind, htable, Outcome.ofTable,
      hmade.partitions, hmade.rowCount]
    rfl
  rw [hrun]
  exact ⟨rfl, rfl⟩

end CommandLine

end TableScan
