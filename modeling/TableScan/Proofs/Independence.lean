import Mathlib.Data.List.Induction
import TableScan.Proofs.Cuttings
import TableScan.Proofs.Failures

/-!
# Independence of the settings

What a scan of a table answers does not depend on the engine's knobs.  Main statement: whatever the
settings are, as far as a machine can lay them out, a cursor on a plan over the table delivers the
rows that were pushed and satisfy the filter, in the order of the scan, and nothing else
(`Workshop.answers_whatever_settings`).
-/

namespace TableScan

variable {ω : Type}

/-! ## Orders -/

/-- Items in the order of a visit. -/
def Order.arrange {α : Type} (o : Order) (l : List α) : List α :=
  match o with
  | .ascending => l
  | .descending => l.reverse

namespace Order

variable {α β : Type}

lemma items_eq_arrange (o : Order) (n : Nat) : o.items n = o.arrange (List.range n) := by
  cases o <;> rfl

lemma mem_arrange {o : Order} {l : List α} {a : α} : a ∈ o.arrange l ↔ a ∈ l := by
  cases o with
  | ascending => rfl
  | descending => exact List.mem_reverse

lemma arrange_nil (o : Order) : o.arrange ([] : List α) = [] := by
  cases o <;> rfl

lemma length_arrange (o : Order) (l : List α) : (o.arrange l).length = l.length := by
  cases o with
  | ascending => rfl
  | descending => exact List.length_reverse

lemma arrange_map (o : Order) (f : α → β) (l : List α) :
    (o.arrange l).map f = o.arrange (l.map f) := by
  cases o with
  | ascending => rfl
  | descending => exact List.map_reverse

lemma arrange_filter (o : Order) (p : α → Bool) (l : List α) :
    (o.arrange l).filter p = o.arrange (l.filter p) := by
  cases o with
  | ascending => rfl
  | descending => exact List.filter_reverse

/-- Parts that are visited one after the other, each in the order of the visit. -/
lemma arrange_flatMap (o : Order) (f : α → List β) (l : List α) :
    (o.arrange l).flatMap (fun a => o.arrange (f a)) = o.arrange (l.flatMap f) := by
  cases o with
  | ascending => rfl
  | descending => exact List.reverse_flatMap.symm

end Order

/-! ## The rows of a tour -/

namespace Tour

variable {T : Tour} {verdict : RowView → Verdict}

/-- The rows of all frames in their natural order. -/
def rows (T : Tour) : List RowView :=
  (List.range T.count).flatMap fun frame =>
    (List.range (T.view.directory.rowCount frame)).map (T.view.atFrame frame).atRow

lemma flatMap_visit (T : Tour) : (T.order.items T.count).flatMap T.visit = T.order.arrange T.rows := by
  have hvisit : T.visit = fun frame => T.order.arrange
      ((List.range (T.view.directory.rowCount frame)).map (T.view.atFrame frame).atRow) := by
    funext frame
    rw [visit, Order.items_eq_arrange, Order.arrange_map]
  rw [hvisit, Order.items_eq_arrange, Order.arrange_flatMap]
  rfl

/-- A verdict that answers on every row makes an itinerary of all rows that it keeps. -/
lemma pass_of_answers (h : ∀ v ∈ T.rows, (verdict v).answers = true) :
    T.pass verdict = { rows := T.order.arrange (T.rows.filter fun v => verdict v = .keep) } := by
  have hanswers : ∀ v ∈ (T.order.items T.count).flatMap T.visit, (verdict v).answers = true := by
    rw [flatMap_visit]
    exact fun v hv => h v (Order.mem_arrange.1 hv)
  have hfailure : T.failure? verdict = none := by
    refine List.findSome?_eq_none_iff.2 fun v hv => ?_
    have hv := hanswers v hv
    cases hj : verdict v with
    | keep | skip => rfl
    | fails | faults => rw [hj] at hv; cases hv
  have hreference : T.reference verdict =
      T.order.arrange (T.rows.filter fun v => verdict v = .keep) := by
    rw [← Order.arrange_filter, ← flatMap_visit, List.filter_flatMap, reference,
      List.takeWhile_eq_self_iff.2, List.flatMap_map]
    intro part hpart
    obtain ⟨frame, hframe, rfl⟩ := List.mem_map.1 hpart
    exact List.all_eq_true.2 fun v hv => hanswers v (List.mem_flatMap.2 ⟨frame, hframe, hv⟩)
  rw [pass, hfailure, hreference]

/-- The rows of a tour have the values that its frames show. -/
lemma map_values {types : Array ColumnType} {frames : List Frame} {rows : List (List Cell)}
    (hd : T.view.directory = { types, frames := frames.toArray })
    (h : Table.ShowRows types frames rows) : T.rows.map RowView.values = rows.map .ok := by
  obtain ⟨parts, hparts, rfl⟩ := h
  have hcount : T.count = frames.length := by rw [count, hd, List.size_toArray]
  have hframes : ((List.range T.count).map fun frame =>
      (List.range (T.view.directory.rowCount frame)).map fun row =>
        ((T.view.atFrame frame).atRow row).values) = parts.map (·.map .ok) := by
    refine List.ext_getElem (by simp [hcount, hparts.length_eq]) fun i hi hi' => ?_
    rw [List.length_map, List.length_range, hcount] at hi
    rw [List.length_map] at hi'
    obtain ⟨part, hpart, hshow⟩ := exists_getElem?_of_forall₂ hparts (List.getElem?_eq_getElem hi)
    have hget : parts[i] = part := (List.getElem?_eq_some_iff.1 hpart).2
    have hframe : T.view.directory.frames[i]? = some frames[i] := by
      rw [hd, List.getElem?_toArray, List.getElem?_eq_getElem hi]
    have hrows : T.view.directory.rowCount i = part.length := by
      rw [Directory.rowCount, hframe]
      exact hshow.rowCount
    simp only [List.getElem_map, List.getElem_range, hrows, hget]
    refine List.ext_getElem (by simp) fun r hr hr' => ?_
    simp only [List.getElem_map, List.getElem_range]
    rw [List.length_map, List.length_range] at hr
    exact hshow.values _ _ (congrArg Directory.types hd) hframe (List.getElem?_eq_getElem hr)
  rw [Tour.rows, List.map_flatMap, List.map_flatten, ← hframes, List.flatMap_def]
  simp only [List.map_map]
  rfl

lemma mem_rows {v : RowView} (hv : v ∈ T.rows) :
    v.directory = T.view.directory ∧ v.dictionaries = T.view.dictionaries := by
  obtain ⟨frame, -, hv⟩ := List.mem_flatMap.1 hv
  obtain ⟨row, -, rfl⟩ := List.mem_map.1 hv
  exact ⟨rfl, rfl⟩

end Tour

/-- Of the rows that a list of views shows, a condition on values keeps as many. -/
lemma filter_values {vs : List RowView} {rows : List (List Cell)} {verdict : RowView → Verdict}
    {q : List Cell → Bool} (hvs : vs.map RowView.values = rows.map .ok)
    (hq : ∀ v ∈ vs, ∀ row, v.values = .ok row → verdict v = .ofBool (q row)) :
    (vs.filter fun v => verdict v = .keep).map RowView.values = (rows.filter q).map .ok := by
  induction vs generalizing rows with
  | nil =>
    obtain rfl := List.map_eq_nil_iff.1 hvs.symm
    rfl
  | cons v vs ih =>
    cases rows with
    | nil => cases hvs
    | cons row rows =>
      obtain ⟨hv, hrest⟩ := List.cons.inj hvs
      have hverdict := hq v List.mem_cons_self row hv
      have ih := ih hrest fun v hv => hq v (List.mem_cons_of_mem _ hv)
      rw [List.filter_cons, List.filter_cons, hverdict]
      cases q row with
      | true => simpa [Verdict.ofBool, hv] using ih
      | false => simpa [Verdict.ofBool] using ih

/-! ## Scans of a table -/

namespace Table

variable {t : Table} {frames : List Frame} {rows : List (List Cell)} {verdict : RowView → Verdict}
  {q : List Cell → Bool}

lemma ShowRows.fits (h : ShowRows t.schema.types frames rows) :
    (t.toSource : Source ω).Fits frames := by
  obtain ⟨parts, hparts, -⟩ := h
  refine List.all_eq_true.2 fun f hf => ?_
  obtain ⟨i, hi⟩ := List.mem_iff_getElem?.1 hf
  obtain ⟨part, -, hshow⟩ := exists_getElem?_of_forall₂ hparts hi
  exact beq_iff_eq.2 hshow.size

/-- A condition on values makes an itinerary of the rows that satisfy it. -/
lemma ShowRows.pass (h : ShowRows t.schema.types frames rows)
    (hq : ∀ v row, v.Shows t.schema t.dictionaries row → verdict v = .ofBool (q row)) :
    ∃ vs, ((t.toSource : Source ω).tour frames).pass verdict = { rows := vs } ∧
      vs.map RowView.values = (t.order.arrange (rows.filter q)).map .ok := by
  let T : Tour := (t.toSource : Source ω).tour frames
  have hd : T.view.directory = { types := t.schema.types, frames := frames.toArray } :=
    (h.fits (ω := ω)).directory
  have hvalues := Tour.map_values hd h
  have hverdict : ∀ v ∈ T.rows, ∀ row, v.values = .ok row → verdict v = .ofBool (q row) := by
    intro v hv row hrow
    obtain ⟨hdirectory, hdictionaries⟩ := Tour.mem_rows hv
    refine hq v row ⟨by rw [hdirectory, hd], hdictionaries.trans ?_, hrow⟩
    have hview : T.view = .ofDirectory T.view.directory t.dictionaries := rfl
    rw [hview, hd]
    rfl
  have hanswers : ∀ v ∈ T.rows, (verdict v).answers = true := by
    intro v hv
    have hmem : v.values ∈ T.rows.map RowView.values := List.mem_map_of_mem hv
    rw [hvalues] at hmem
    obtain ⟨row, -, hrow⟩ := List.mem_map.1 hmem
    rw [hverdict v hv row hrow.symm]
    cases q row <;> rfl
  refine ⟨_, Tour.pass_of_answers hanswers, ?_⟩
  rw [Order.arrange_map, filter_values hvalues hverdict, ← Order.arrange_map]
  rfl

end Table

/-! ## New workshops -/

lemma Settings.capacity_pos {settings : Settings} {capacity : Nat}
    (h : settings.capacity? = .ok capacity) : 0 < capacity := by
  rw [capacity?, powerOfTwo?] at h
  split at h
  · obtain rfl := Except.ok.inj h
    exact Nat.pos_of_isPowerOfTwo (Nat.isPowerOfTwo_nextPowerOfTwo _)
  · cases h

/-- A hub can be added as far as a machine can lay it out.  Its rings have free slots. -/
lemma Engine.exists_addHub {settings : Settings} (h : settings.layOut = .ok ()) (world : ω) :
    ∃ e : Engine ω, ({ world } : Engine ω).addHub? settings = .ok (0, e) ∧ e.world = world ∧
      e.hubs.size = 1 ∧ ∀ ring, ¬ e.Saturated ring := by
  cases hcap : settings.capacity? with
  | error fault =>
    simp only [Settings.layOut, hcap, bind, Except.bind] at h
    cases h
  | ok capacity =>
    let e : Engine ω :=
      { world
        rings := (Array.range settings.shards).map fun shard => Ring.ofCapacity shard capacity
        hubs := #[{ firstRing := 0, shards := settings.shards, patience := settings.standingTime }] }
    refine ⟨e, ?_, rfl, rfl, ?_⟩
    · simp [e, Engine.addHub?, hcap, bind, Except.bind, pure, Except.pure]
    · rintro ring ⟨r, hr, hfull⟩
      rw [Array.getElem?_map] at hr
      obtain ⟨shard, -, rfl⟩ := Option.map_eq_some_iff.1 hr
      have havailable : (Ring.ofCapacity shard capacity : Ring ω).available = capacity :=
        List.length_range
      exact absurd (havailable.symm.trans hfull) (Nat.ne_of_gt (Settings.capacity_pos hcap))

lemma Workshop.make?_eq {settings : Settings} {world : ω} {hub : Nat} {e : Engine ω}
    (h : settings.layOut = .ok ())
    (hadd : ({ world } : Engine ω).addHub? settings = .ok (hub, e)) :
    Workshop.make? world [settings] = .ok { engine := e } := by
  simp [Workshop.make?, h, hadd, bind, Except.bind, pure, Except.pure]

/-- A workshop can be made as far as a machine can lay it out.  It has one hub, and a free slot in
every ring. -/
lemma Workshop.exists_make {settings : Settings} (h : settings.layOut = .ok ()) (world : ω) :
    ∃ e : Engine ω, Workshop.make? world [settings] = .ok { engine := e } ∧ e.hubs.size = 1 ∧
      ∀ ring, ¬ e.Saturated ring := by
  obtain ⟨e, hadd, -, hhubs, hfree⟩ := Engine.exists_addHub h world
  exact ⟨e, make?_eq h hadd, hhubs, hfree⟩

namespace Workshop

/-- Whatever the settings are, as far as a machine can lay them out, a cursor over a table that was
filled by pushes can be opened, and it delivers the rows that satisfy the filter, in the order in
which they were pushed or in the opposite one, and then says that there are no more.  Those rows do
not depend on the settings.  The filter is a condition `q` on the values of a row.  Others may do
what they like meanwhile; in particular workers may reduce what is due in any ring. -/
theorem answers_whatever_settings {schema : Schema} {dictionaries : Dictionaries}
    {parts : List (List ColumnBuffer)} {tables : List (List (List Cell))} {settings₀ : Settings}
    {t₀ : Table} {filter : Filter ω} {verdict : RowView → Verdict} {q : List Cell → Bool}
    (hpushed : List.Forall₂ (List.Forall₂ ColumnBuffer.Holds) parts tables)
    (hmemory : ∀ part ∈ parts, ∀ b ∈ part, b.memory.size < 1 <<< 63)
    (haccepted : (Table.ofSchema schema settings₀).appendAll parts = .ok t₀)
    (hverdict : ∀ v w, (filter.judge v w).1 = verdict v)
    (hq : ∀ v row, v.Shows schema dictionaries row → verdict v = .ofBool (q row))
    (settings : Settings) (hlaid : settings.layOut = .ok ())
    (hword : settings.rowsPerFrame < 1 <<< 64) (order : Order) (randomAccess : Bool) (world : ω)
    (plan n : String) :
    ∃ t W vs, (Table.ofSchema schema settings).appendAll parts = .ok t ∧
      Workshop.make? world [settings] = .ok W ∧
      vs.map RowView.values = (order.arrange ((tables.flatMap rowsOf).filter q)).map .ok ∧
      ((Session.openCursor plan n 0).on (W.after (.addPlan plan
        ({ t with order, dictionaries, randomAccess } : Table).toSource filter))).1 = .ok () ∧
      ((W.after (.addPlan plan ({ t with order, dictionaries, randomAccess } : Table).toSource
        filter)).after (.openCursor plan n 0)).Recites n { rows := vs } := by
  obtain ⟨hnone, -⟩ := Table.appendAll_eq_ok_iff.1 haccepted
  obtain ⟨e, hmade, hhubs, hfree⟩ := exists_make hlaid world
  let t : Table := { Table.ofSchema schema settings with
    partitions := (Table.ofSchema schema settings).partitions ++
      (parts.map Partition.ofColumns).toArray
    order, dictionaries, randomAccess }
  have hpartitions : t.partitions = (parts.map Partition.ofColumns).toArray := Array.empty_append
  -- whether a partition is accepted depends on the schema only
  have hfit : ∀ part ∈ parts, t.misfit? part = none := hnone
  obtain ⟨fs, hfs, hshow⟩ := Table.exists_frames hpushed hfit hmemory
    (Nat.lt_of_lt_of_le Nat.zero_lt_one (Nat.le_max_left ..)) hword hpartitions
  obtain ⟨vs, hpass, hvs⟩ := hshow.pass (ω := ω) hq
  refine ⟨_, _, vs, Table.appendAll_eq_ok_iff.2 ⟨hfit, rfl⟩, hmade, hvs, ?_⟩
  -- the workshop with the plan
  let p : Plan ω :=
    { source := t.toSource, filter
      dispatcher := { id := e.addDispatcher.1, reducer := .filtering order }
      inbox := { id := e.addDispatcher.2.addInbox.1 } }
  let V : Workshop ω := Workshop.after { engine := e } (.addPlan plan t.toSource filter)
  have hreached : V.Reached _ := (Reached.make hmade).deed (a := .addPlan plan t.toSource filter)
    fun _ _ hc => nomatch hc
  have hpermits : V.Permits (.openCursor plan n 0) :=
    ⟨fun _ _ hc => (nomatch hc), rfl, by rw [show V.engine.hubs = e.hubs from rfl, hhubs]; decide⟩
  have hplan : V.plans.find? plan = some p := Register.find?_bind_self
  have hsupply : p.source.supply V.engine.world = (.ok fs, e.world) :=
    congrArg (Stop.ofFault · , e.world) hfs
  have ho : V.Opening plan n 0 p fs ⟨p.tour fs, .ofVerdict verdict, ()⟩ fun _ => () :=
    ⟨⟨_, hreached⟩, hpermits, hplan, congrArg Prod.fst hsupply, hshow.fits, rfl,
      Filter.shows_ofVerdict hverdict, fun _ => rfl, fun _ _ _ _ _ _ => leaves_unit ..,
      fun _ _ _ _ _ => leaves_unit ..⟩
  obtain ⟨hout, hok⟩ := ho.opened.resolve_left fun hfull => hfree _ hfull.1
  have hahead : (p.tour fs).ahead (.ofVerdict verdict) () 0 = { rows := vs } :=
    ((p.tour fs).ahead_ofVerdict verdict).trans hpass
  rw [hahead] at hout hok
  have hopen : ((Session.openCursor plan n 0).on V).1 = .ok () := by
    rw [hout]
    cases vs <;> rfl
  obtain ⟨c, hf⟩ := hok hopen
  exact ⟨hopen, hf.recites (hreached.deed hpermits)⟩

/-- The schema of a single column of whole numbers. -/
def whole : Schema := { columns := #[{ name := "v", type := .i64 }] }

/-- A column that whole numbers were pushed into. -/
def pushedLongs (vs : List Int64) : ColumnBuffer :=
  vs.foldl (fun c v => { c with memory := Bytes.append c.memory (Cell.long v).bytes, rows := c.rows + 1 })
    { type := .i64 }

lemma type_pushedLongs (vs : List Int64) : (pushedLongs vs).type = .i64 := by
  induction vs using List.reverseRecOn with
  | nil => rfl
  | append_singleton vs v ih =>
    rw [pushedLongs, List.foldl_append]
    exact ih

/-- The column that whole numbers were pushed into holds them. -/
lemma holds_pushedLongs (vs : List Int64) : (pushedLongs vs).Holds (vs.map .long) := by
  induction vs using List.reverseRecOn with
  | nil => exact .new .i64
  | append_singleton vs v ih =>
    rw [List.map_append]
    refine ih.push ?_
    rw [ColumnBuffer.push_eq_ok_iff]
    refine ⟨by rw [type_pushedLongs]; rfl, ?_⟩
    rw [pushedLongs, List.foldl_append]
    rfl

/-- The condition that the first value of a row is a positive number. -/
def isPositive : List Cell → Bool
  | .long x :: _ => 0 < x
  | _ => false

/-- The filter of that condition. -/
def positive : Filter Unit := .ofCondition fun v => do return isPositive [← v.cell .long 0]

/-- The values of a row with a single column of whole numbers. -/
lemma values_of_whole {v : RowView} (h : v.directory.types = whole.types) :
    v.values = (v.cell .long 0).map fun x => [x] := by
  have hzip : v.directory.types.toList.zipIdx = [(.i64, 0)] := by
    rw [h]
    simp [whole, Schema.types]
  rw [RowView.values, hzip, List.mapM_cons]
  cases v.cell ColumnType.i64.getter 0 <;> rfl

lemma positive_of_shows {v : RowView} {row : List Cell} (h : v.Shows whole {} row) :
    (positive.judge v ()).1 = .ofBool (isPositive row) := by
  have hvalues := h.values
  rw [values_of_whole h.types] at hvalues
  obtain ⟨x, hcell, rfl⟩ : ∃ x, v.cell .long 0 = .ok x ∧ [x] = row := by
    cases hcell : v.cell .long 0 with
    | error fault => rw [hcell] at hvalues; cases hvalues
    | ok x => rw [hcell] at hvalues; exact ⟨x, rfl, Except.ok.inj hvalues⟩
  simp [positive, Filter.ofCondition, hcell, bind, Except.bind, pure, Except.pure]

/-- Every knob at zero. -/
def zeros : Settings := ⟨some 0, some 0, some 0, some 0, some 0, some 0⟩

/-- With every knob at zero a table of three rows is scanned from its end. -/
theorem answers_with_zeros :
    ∃ t W vs, (Table.ofSchema whole zeros).appendAll
        [[pushedLongs [7, -1]], [pushedLongs []], [pushedLongs [3]]] = .ok t ∧
      Workshop.make? () [zeros] = .ok W ∧
      vs.map RowView.values = [.ok [.long 3], .ok [.long 7]] ∧
      ((W.after (.addPlan "p" ({ t with order := .descending } : Table).toSource positive)).after
        (.openCursor "p" "c" 0)).Recites "c" { rows := vs } := by
  have hpushed : List.Forall₂ (List.Forall₂ ColumnBuffer.Holds)
      [[pushedLongs [7, -1]], [pushedLongs []], [pushedLongs [3]]]
      [[[.long 7, .long (-1)]], [[]], [[.long 3]]] :=
    .cons (.cons (.push (.push (.new .i64) rfl) rfl) .nil) (.cons (.cons (.new .i64) .nil)
      (.cons (.cons (.push (.new .i64) rfl) .nil) .nil))
  have haccepted : (Table.ofSchema whole {}).appendAll
      [[pushedLongs [7, -1]], [pushedLongs []], [pushedLongs [3]]] = .ok _ :=
    Table.appendAll_eq_ok_iff.2 ⟨by decide +kernel, rfl⟩
  have hlaid : zeros.layOut = .ok () := by with_unfolding_all rfl
  obtain ⟨t, W, vs, happend, hmade, hvs, -, hrecites⟩ := answers_whatever_settings hpushed
    (by decide +kernel) haccepted (fun _ _ => rfl) (fun _ _ => positive_of_shows) zeros hlaid
    (by decide) .descending true () "p" "c"
  obtain ⟨-, ht⟩ := Table.appendAll_eq_ok_iff.1 happend
  refine ⟨t, W, vs, happend, hmade, ?_, ?_⟩
  · rw [hvs]
    decide +kernel
  · subst ht
    exact hrecites

/-- No machine lays out a ring of that many slots. -/
theorem not_laid_out :
    ∃ s : Settings, s.ringCapacity.getD 64 ≤ 1 <<< 63 ∧ s.rowsPerFrame < 1 <<< 64 ∧
      ∀ W, Workshop.make? () [s] ≠ .ok W := by
  refine ⟨{ ringCapacity := some (1 <<< 56) }, by decide, by decide, fun W h => ?_⟩
  have hmake : Workshop.make? () [{ ringCapacity := some (1 <<< 56) }] = .error .overflow := by
    with_unfolding_all rfl
  rw [hmake] at h
  cases h

end Workshop

end TableScan
