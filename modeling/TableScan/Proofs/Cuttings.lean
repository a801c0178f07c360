import TableScan.Proofs.Values

/-!
# Cuttings

Tables are cut into frames.  Main statements: whatever the length of the frames is, they tile the
table, partition after partition (`Table.exists_frames_tiles`), and show its rows as they were
pushed (`Table.exists_frames`).
-/

namespace TableScan

/-! ## Frames of a partition -/

/-- The rows of its partition that a frame covers, as first row and length. -/
def Frame.range (f : Frame) : Nat × Nat := (f.firstRow, f.rowCount)

/-- A frame of the partition with this index and these columns: of each column it has the window
of its own rows. -/
structure Frame.Covers (f : Frame) (index : Nat) (buffers : List ColumnBuffer) : Prop where
  partition : f.partition = index
  windows : List.Forall₂ (fun (b : ColumnBuffer) (w : Window) => w.memory = b.memory ∧
    w.offset = f.firstRow * b.type.width ∧ w.length = f.rowCount * b.type.width)
    buffers f.columns.toList

/-- The window of a range of rows of a column that memory can hold. -/
lemma Table.exists_window {range : Nat × Nat} {type : ColumnType} {memory : ByteArray}
    (hin : range.1 * type.width + range.2 * type.width ≤ memory.size)
    (hmemory : memory.size < 1 <<< 63) :
    ∃ w, Table.window range type memory = .ok w ∧ w.memory = memory ∧
      w.offset = range.1 * type.width ∧ w.length = range.2 * type.width := by
  have hword : range.1 * type.width + range.2 * type.width < 1 <<< 64 := by omega
  refine ⟨⟨memory, range.1 * type.width, range.2 * type.width, hin, hword⟩, ?_, rfl, rfl, rfl⟩
  rw [window, inWord_eq_ok (by omega), inWord_eq_ok (by omega)]
  exact (dif_pos hword).trans (dif_pos hin)

namespace Filled

variable {types : Array ColumnType} {rows : Nat} {buffers : List ColumnBuffer}
  {columns : List (List Cell)} {t : Table} {index : Nat} {f : Frame}

/-- A range of rows has a frame. -/
lemma exists_frame (h : Filled types rows buffers columns) (ht : t.schema.types = types)
    (hmemory : ∀ b ∈ buffers, b.memory.size < 1 <<< 63) (index n : Nat) {range : Nat × Nat}
    (hr : range.1 + range.2 ≤ rows) :
    ∃ f, t.frame index ⟨n, (buffers.map (·.memory)).toArray⟩ range = .ok f ∧
      f.range = range ∧ f.Covers index buffers := by
  have hzip : (types.zip (buffers.map (·.memory)).toArray).toList =
      buffers.map fun b => (b.type, b.memory) := by
    rw [Array.toList_zip, ← h.types, List.zip_map']
  have hpairs : List.Forall₂ (fun (p : ColumnType × ByteArray) b => p = (b.type, b.memory) ∧
      b ∈ buffers) (buffers.map fun b => (b.type, b.memory)) buffers :=
    List.forall₂_map_left_iff.2 (List.forall₂_same.2 fun b hb => ⟨rfl, hb⟩)
  obtain ⟨ws, hws, hall⟩ := exists_mapM_eq_ok
    (f := fun p : ColumnType × ByteArray => Table.window range p.1 p.2) hpairs
    fun p b ⟨hp, hb⟩ => by
      subst hp
      refine Table.exists_window ?_ (hmemory b hb)
      rw [h.size_memory hb, ← Nat.add_mul]
      exact Nat.mul_le_mul_right _ hr
  refine ⟨⟨index, range.1, range.2, ws.toArray⟩, ?_, rfl, rfl, hall⟩
  simp only [Table.frame, ht, hzip]
  rw [hws]
  rfl

/-- A view of a row of the frame has the words of that row of the partition. -/
lemma word_eq (h : Filled types rows buffers columns) (hf : f.Covers index buffers)
    {v : RowView} (htypes : v.directory.types = types)
    (hframe : v.directory.frames[v.frame]? = some f) (hrow : v.row < f.rowCount) {c : Nat}
    {b : ColumnBuffer} {vs : List Cell} {x : Cell} (hb : buffers[c]? = some b) (hvs : b.Holds vs)
    (hx : vs[f.firstRow + v.row]? = some x) : v.word c b.type.width = .ok x.word := by
  obtain ⟨w, hw, hmemory, hoffset, hlength⟩ := exists_getElem?_of_forall₂ hf.windows hb
  refine RowView.word_eq_ok_iff.2 ⟨_, _, w, htypes ▸ h.type_eq hb, rfl, hframe, by simpa using hw,
    ?_, ?_⟩
  · rw [hlength, ← Nat.succ_mul]
    exact Nat.mul_le_mul_right _ hrow
  · rw [hmemory, hoffset, ← Nat.add_mul, hvs.load hx]

/-- The frame of a range of rows shows these rows. -/
lemma shows (h : Filled types rows buffers columns) (hf : f.Covers index buffers)
    (hr : f.firstRow + f.rowCount ≤ rows) :
    f.Shows types ((List.range f.rowCount).map fun r => rowAt columns (f.firstRow + r)) := by
  refine ⟨?_, by simp, ?_⟩
  · rw [← Array.length_toList, ← hf.windows.length_eq, h.length_buffers]
  · intro v row htypes hframe hrow
    -- which row of the partition it is
    rw [List.getElem?_map] at hrow
    obtain ⟨r, hr', rfl⟩ := Option.map_eq_some_iff.1 hrow
    obtain ⟨hlt, rfl⟩ := List.getElem?_eq_some_iff.1 hr'
    rw [List.length_range] at hlt
    rw [List.getElem_range]
    have hrow := h.row (i := f.firstRow + v.row) (by omega)
    refine RowView.values_eq ?_ fun c type x htype hx => ?_
    · rw [htypes, ← hrow.length_eq, h.length_columns]
    · obtain ⟨b, vs, hb, hvs, hholds, rfl⟩ := h.column (htypes ▸ htype)
      obtain ⟨x', hx', hvalue⟩ := exists_getElem?_of_forall₂ hrow hvs
      obtain rfl := Option.some.inj (hx'.symm.trans hx)
      exact ⟨hholds.fits _ (List.mem_of_getElem? hvalue),
        h.word_eq hf htypes hframe hlt hb hholds hvalue⟩

end Filled

/-! ## Ranges -/

namespace Table

variable {limit rows low : Nat}

/-- Ranges that follow one another from row `low` to row `rows`: all but the last have `limit`
rows, and the last one has at least one row and no more than that. -/
inductive Lined (limit rows : Nat) : Nat → List (Nat × Nat) → Prop
  | last {low : Nat} (lt : low < rows) (le : rows ≤ low + limit) :
      Lined limit rows low [(low, rows - low)]
  | full {low : Nat} {rs : List (Nat × Nat)} (lt : low + limit < rows)
      (rest : Lined limit rows (low + limit) rs) : Lined limit rows low ((low, limit) :: rs)

namespace Lined

variable {rs : List (Nat × Nat)}

lemma ne_nil (h : Lined limit rows low rs) : rs ≠ [] := by
  cases h <;> simp

lemma bounds (h : Lined limit rows low rs) (hpos : 0 < limit) :
    ∀ r ∈ rs, 0 < r.2 ∧ r.2 ≤ limit ∧ r.1 + r.2 ≤ rows := by
  induction h with
  | last lt le =>
    intro r hr
    obtain rfl := List.mem_singleton.1 hr
    dsimp only
    omega
  | full lt _ ih =>
    intro r hr
    rcases List.mem_cons.1 hr with rfl | hr
    · dsimp only
      omega
    · exact ih r hr

lemma full_dropLast (h : Lined limit rows low rs) : ∀ r ∈ rs.dropLast, r.2 = limit := by
  induction h with
  | last => simp
  | full _ rest ih =>
    intro r hr
    rw [List.dropLast_cons_of_ne_nil rest.ne_nil] at hr
    rcases List.mem_cons.1 hr with rfl | hr
    · rfl
    · exact ih r hr

/-- The ranges make up the rows in order, without gap or overlap. -/
lemma flatMap_eq (h : Lined limit rows low rs) :
    (rs.flatMap fun r => (List.range r.2).map (r.1 + ·)) = List.range' low (rows - low) := by
  induction h with
  | last lt le => simp [List.range'_eq_map_range]
  | @full low rs lt rest ih =>
    have hrest : rows - low = limit + (rows - (low + limit)) := by omega
    rw [List.flatMap_cons, ih, ← List.range'_eq_map_range, hrest, ← List.range'_append_1]

lemma length_eq (h : Lined limit rows low rs) (hpos : 0 < limit) :
    rs.length = (rows - low + limit - 1) / limit := by
  induction h with
  | @last low lt le =>
    have hdiv : (rows - low + limit - 1) / limit = 1 := Nat.div_eq_of_lt_le (by omega) (by omega)
    rw [hdiv, List.length_singleton]
  | @full low rs lt rest ih =>
    have hrest : rows - low + limit - 1 = (rows - (low + limit) + limit - 1) + limit := by omega
    rw [List.length_cons, ih, hrest, Nat.add_div_right _ hpos]

end Lined

/-- What the loop cuts from row `low` on is lined up behind what it has cut before. -/
lemma lined_of_cut {ranges cuts : Array (Nat × Nat)} (h : cut limit rows ranges low = .ok cuts)
    (hpos : 0 < limit) (hlow : low < rows) :
    ∃ rs, cuts.toList = ranges.toList ++ rs ∧ Lined limit rows low rs := by
  fun_induction cut limit rows ranges low with
  | case1 ranges low hgo hword high ih =>
    by_cases hlast : rows ≤ low + limit
    · -- the loop ends after this range
      have hhigh : high = rows := Nat.min_eq_right hlast
      have hstop : ¬ (high < rows ∧ 0 < limit) := by omega
      rw [cut, if_neg hstop] at h
      obtain rfl := Except.ok.inj h
      exact ⟨[(low, rows - low)], by rw [Array.toList_push, hhigh], .last hgo.1 hlast⟩
    · have hhigh : high = low + limit := Nat.min_eq_left (by omega)
      obtain ⟨rs, hrs, hlined⟩ := ih h (by omega)
      have hlen : high - low = limit := by omega
      refine ⟨(low, limit) :: rs, ?_, .full (by omega) (hhigh ▸ hlined)⟩
      rw [hrs, Array.toList_push, hlen, List.append_assoc]
      rfl
  | case2 ranges low hgo hword => cases h
  | case3 ranges low hstop => exact absurd ⟨hlow, hpos⟩ hstop

/-- The loop never leaves a word.  Behind the first range a full range is no longer than what
was cut before. -/
lemma exists_cut (hlimit : limit < 1 <<< 64) (hrows : rows < 1 <<< 63)
    (ranges : Array (Nat × Nat)) (hlow : low = 0 ∨ limit ≤ low ∨ rows ≤ low) :
    ∃ cuts, cut limit rows ranges low = .ok cuts := by
  fun_induction cut limit rows ranges low with
  | case1 ranges low hgo hword high ih =>
    have hhigh : high = min (low + limit) rows := rfl
    exact ih (by omega)
  | case2 ranges low hgo hword => omega
  | case3 ranges low hstop => exact ⟨ranges, rfl⟩

/-- Ranges that tile so many rows. -/
structure Tiled (limit rows : Nat) (rs : List (Nat × Nat)) : Prop where
  /-- They make up the rows in order, without gap or overlap. -/
  rows_eq : (rs.flatMap fun r => (List.range r.2).map (r.1 + ·)) = List.range rows
  inside : ∀ r ∈ rs, r.1 + r.2 ≤ rows
  bounds : 0 < rows → ∀ r ∈ rs, 0 < r.2 ∧ r.2 ≤ limit
  full : ∀ r ∈ rs.dropLast, r.2 = limit
  /-- No rows make one range without rows. -/
  empty : rows = 0 → rs = [(0, 0)]

lemma lined_of_ranges {rs : List (Nat × Nat)} (h : ranges limit rows = .ok rs) (hpos : 0 < limit)
    (hrows : 0 < rows) : Lined limit rows 0 rs := by
  rw [ranges, if_neg (Nat.ne_of_gt hrows)] at h
  cases hcut : cut limit rows #[] 0 with
  | error fault => rw [hcut] at h; cases h
  | ok cuts =>
    rw [hcut] at h
    obtain rfl := Except.ok.inj h
    obtain ⟨rs, hrs, hlined⟩ := lined_of_cut hcut hpos hrows
    rwa [hrs, List.nil_append]

/-- The row ranges of a partition that memory can hold tile it. -/
lemma exists_ranges (hpos : 0 < limit) (hlimit : limit < 1 <<< 64) (hrows : rows < 1 <<< 63) :
    ∃ rs, ranges limit rows = .ok rs ∧ Tiled limit rows rs := by
  rcases Nat.eq_zero_or_pos rows with rfl | hsome
  · exact ⟨[(0, 0)], rfl, rfl, by simp, by simp, by simp, fun _ => rfl⟩
  · obtain ⟨cuts, hcut⟩ := exists_cut hlimit hrows #[] (.inl rfl)
    have hranges : ranges limit rows = .ok cuts.toList := by
      rw [ranges, if_neg (Nat.ne_of_gt hsome), hcut]
      rfl
    have h := lined_of_ranges hranges hpos hsome
    refine ⟨cuts.toList, hranges, ?_, fun r hr => (h.bounds hpos r hr).2.2,
      fun _ r hr => ⟨(h.bounds hpos r hr).1, (h.bounds hpos r hr).2.1⟩, h.full_dropLast,
      fun hzero => absurd hzero (Nat.ne_of_gt hsome)⟩
    rw [h.flatMap_eq, Nat.sub_zero, List.range_eq_range']

end Table

/-! ## Tables that were filled -/

/-- The partition of columns that were filled. -/
def Partition.ofColumns (buffers : List ColumnBuffer) : Partition :=
  ⟨Table.rowCountOf buffers, (buffers.map (·.memory)).toArray⟩

namespace Table

variable {t t' : Table} {buffers : List ColumnBuffer} {parts : List (List ColumnBuffer)}
  {columns : List (List Cell)} {tables : List (List (List Cell))}

/-- The table with partitions added one after the other, as far as they are accepted. -/
def appendAll (t : Table) (parts : List (List ColumnBuffer)) : Except PartitionError Table :=
  parts.foldlM append t

lemma append_eq_ok (h : t.misfit? buffers = none) :
    t.append buffers = .ok { t with partitions := t.partitions.push (.ofColumns buffers) } := by
  rw [append, h]
  rfl

lemma appendAll_eq_ok_iff : t.appendAll parts = .ok t' ↔
    (∀ part ∈ parts, t.misfit? part = none) ∧
      t' = { t with partitions := t.partitions ++ (parts.map .ofColumns).toArray } := by
  induction parts generalizing t with
  | nil => simp [appendAll, pure, Except.pure, eq_comm]
  | cons part parts ih =>
    cases hm : t.misfit? part with
    | some e => simp [appendAll, append, hm, bind, Except.bind]
    | none =>
      have hstep : t.appendAll (part :: parts) =
          appendAll { t with partitions := t.partitions.push (.ofColumns part) } parts := by
        rw [appendAll, List.foldlM_cons, append_eq_ok hm]
        rfl
      rw [hstep, ih]
      have hpart : ∀ p, misfit? { t with partitions := t.partitions.push (.ofColumns part) } p =
          t.misfit? p := fun _ => rfl
      simp [hpart, hm]

/-- Columns that can make a partition of a table with this schema. -/
structure Fitting (schema : Schema) (buffers : List ColumnBuffer) : Prop where
  length_eq : buffers.length = schema.size
  type_eq : ∀ (i : Nat) (column : Column) (b : ColumnBuffer), schema.columns[i]? = some column →
    buffers[i]? = some b → b.type = column.type
  rows_eq : ∀ b ∈ buffers, ∀ b' ∈ buffers, b.rows = b'.rows

lemma Fitting.rows_eq_rowCountOf {schema : Schema} (h : Fitting schema buffers) :
    ∀ b ∈ buffers, b.rows = rowCountOf buffers := by
  intro b hb
  cases buffers with
  | nil => cases hb
  | cons b' _ => exact h.rows_eq b hb b' List.mem_cons_self

lemma firstMisfit_eq_none_iff {n : Nat} {l : List (Nat × Column × ColumnBuffer)} :
    firstMisfit n l = none ↔ ∀ e ∈ l, e.2.2.type = e.2.1.type ∧ e.2.2.rows = n := by
  induction l with
  | nil => simp [firstMisfit]
  | cons e l ih =>
    obtain ⟨i, column, buffer⟩ := e
    rw [firstMisfit, List.forall_mem_cons, ← ih]
    split
    · rename_i htype
      simp [htype]
    · rename_i htype
      split
      · rename_i hrows
        simp [hrows]
      · rename_i hrows
        simp [not_not.1 htype, not_not.1 hrows]

/-- The columns of a table beside those of a partition. -/
lemma mem_zip_range {columns : List Column} {i : Nat} {column : Column} {b : ColumnBuffer} :
    (i, column, b) ∈ (List.range buffers.length).zip (columns.zip buffers) ↔
      columns[i]? = some column ∧ buffers[i]? = some b := by
  rw [List.mem_iff_getElem?]
  simp only [List.getElem?_zip_eq_some]
  constructor
  · rintro ⟨k, hk, hcolumn, hb⟩
    obtain ⟨-, rfl⟩ := List.getElem?_eq_some_iff.1 hk
    rw [List.getElem_range]
    exact ⟨hcolumn, hb⟩
  · rintro ⟨hcolumn, hb⟩
    exact ⟨i, List.getElem?_range (List.getElem?_eq_some_iff.1 hb).1, hcolumn, hb⟩

/-- A table takes the columns that fit. -/
lemma misfit?_eq_none_iff : t.misfit? buffers = none ↔ Fitting t.schema buffers := by
  rw [misfit?]
  split
  · rename_i hlen
    exact ⟨nofun, fun h => absurd h.length_eq hlen⟩
  · rename_i hlen
    rw [firstMisfit_eq_none_iff]
    constructor
    · intro h
      have hrows : ∀ b ∈ buffers, b.rows = rowCountOf buffers := fun b hb => by
        obtain ⟨i, hi⟩ := List.mem_iff_getElem?.1 hb
        have hlt : i < t.schema.columns.toList.length :=
          Nat.lt_of_lt_of_eq (List.getElem?_eq_some_iff.1 hi).1 (not_not.1 hlen)
        exact (h _ (mem_zip_range.2 ⟨List.getElem?_eq_getElem hlt, hi⟩)).2
      exact ⟨not_not.1 hlen,
        fun i column b hc hb => (h _ (mem_zip_range.2 ⟨by simpa using hc, hb⟩)).1,
        fun b hb b' hb' => (hrows b hb).trans (hrows b' hb').symm⟩
    · rintro h ⟨i, column, b⟩ he
      obtain ⟨hc, hb⟩ := mem_zip_range.1 he
      exact ⟨h.type_eq i column b (by simpa using hc) hb,
        h.rows_eq_rowCountOf b (List.mem_of_getElem? hb)⟩

lemma Fitting.types_eq {schema : Schema} (h : Fitting schema buffers) :
    buffers.map (·.type) = schema.types.toList := by
  have hlen : buffers.length = schema.columns.size := h.length_eq
  refine List.ext_getElem (by simpa [Schema.types] using hlen) fun i hi hi' => ?_
  simp only [List.getElem_map, Schema.types, Array.getElem_toList, Array.getElem_map]
  exact h.type_eq i _ _ (Array.getElem?_eq_getElem _) (List.getElem?_eq_getElem _)

/-- Columns that are accepted have the types of the schema, and as many rows each. -/
lemma filled_of_misfit (h : t.misfit? buffers = none)
    (hholds : List.Forall₂ ColumnBuffer.Holds buffers columns) :
    Filled t.schema.types (rowCountOf buffers) buffers columns :=
  have hfits := misfit?_eq_none_iff.1 h
  ⟨hholds, hfits.types_eq, hfits.rows_eq_rowCountOf⟩

/-! ## The frames of a table -/

/-- Frames that show these rows, one frame after the other. -/
def ShowRows (types : Array ColumnType) (frames : List Frame) (rows : List (List Cell)) : Prop :=
  ∃ parts, List.Forall₂ (fun f part => f.Shows types part) frames parts ∧ parts.flatten = rows

lemma ShowRows.flatten {types : Array ColumnType} {frames : List (List Frame)}
    (h : List.Forall₂ (fun columns fs => ShowRows types fs (rowsOf columns)) tables frames) :
    ShowRows types frames.flatten (tables.flatMap rowsOf) := by
  induction h with
  | nil => exact ⟨[], .nil, rfl⟩
  | cons hshow _ ih =>
    obtain ⟨parts, hparts, hrows⟩ := hshow
    obtain ⟨parts', hparts', hrows'⟩ := ih
    refine ⟨parts ++ parts', List.rel_append hparts hparts', ?_⟩
    rw [List.flatten_append, hrows, hrows', List.flatMap_cons]

lemma rowsOf_eq (h : List.Forall₂ ColumnBuffer.Holds buffers columns) :
    rowsOf columns = (List.range (rowCountOf buffers)).map (rowAt columns) := by
  cases h with
  | nil => rfl
  | cons hholds _ => rw [rowCountOf, hholds.rows_eq]; rfl

/-- The row count of columns in memory leaves a bit of a word free. -/
lemma rowCountOf_lt (h : Filled t.schema.types (rowCountOf buffers) buffers columns)
    (hmemory : ∀ b ∈ buffers, b.memory.size < 1 <<< 63) : rowCountOf buffers < 1 <<< 63 := by
  cases buffers with
  | nil => decide
  | cons b rest =>
    have hsize := h.size_memory List.mem_cons_self
    have hlt := hmemory b List.mem_cons_self
    rw [hsize] at hlt
    exact Nat.lt_of_le_of_lt (Nat.le_mul_of_pos_right _ b.type.width_pos) hlt

/-- Frames that tile the partition with this index and these columns. -/
structure Tiles (limit index : Nat) (buffers : List ColumnBuffer) (fs : List Frame) : Prop where
  tiled : Tiled limit (rowCountOf buffers) (fs.map Frame.range)
  covers : ∀ f ∈ fs, f.Covers index buffers

namespace Tiles

variable {limit index : Nat} {fs : List Frame}

lemma inside (h : Tiles limit index buffers fs) {f : Frame} (hf : f ∈ fs) :
    f.firstRow + f.rowCount ≤ rowCountOf buffers :=
  h.tiled.inside f.range (List.mem_map_of_mem hf)

/-- Frames that tile a partition show its rows. -/
lemma showRows {types : Array ColumnType} (h : Tiles limit index buffers fs)
    (hfilled : Filled types (rowCountOf buffers) buffers columns) :
    ShowRows types fs (rowsOf columns) := by
  refine ⟨fs.map fun f => (List.range f.rowCount).map fun r => rowAt columns (f.firstRow + r),
    List.forall₂_map_right_iff.2 (List.forall₂_same.2 fun f hf =>
      hfilled.shows (h.covers f hf) (h.inside hf)), ?_⟩
  have hrows : (fs.flatMap fun f => (List.range f.rowCount).map (f.firstRow + ·)) =
      List.range (rowCountOf buffers) := by
    rw [← h.tiled.rows_eq, List.flatMap_map]
    rfl
  rw [rowsOf_eq hfilled.holds, ← hrows, List.map_flatMap, ← List.flatMap_def]
  simp only [List.map_map]
  rfl

end Tiles

/-- Frames that tile partitions with these columns, one partition after the other. -/
def TilesEach (limit : Nat) (parts : List (List ColumnBuffer)) (tiles : List (List Frame)) : Prop :=
  List.Forall₂ (fun (p : List ColumnBuffer × Nat) fs => Tiles limit p.2 p.1 fs) parts.zipIdx tiles

/-- A partition that memory can hold is cut into frames that tile it. -/
lemma exists_tiles (hlimit : 0 < t.rowsPerFrame) (hword : t.rowsPerFrame < 1 <<< 64)
    (h : Filled t.schema.types (rowCountOf buffers) buffers columns)
    (hmemory : ∀ b ∈ buffers, b.memory.size < 1 <<< 63) (index : Nat) :
    ∃ fs, t.partitionFrames index (.ofColumns buffers) = .ok fs ∧
      Tiles t.rowsPerFrame index buffers fs := by
  obtain ⟨rs, hrs, htiled⟩ := exists_ranges hlimit hword (rowCountOf_lt h hmemory)
  have hranges : List.Forall₂ (fun (r r' : Nat × Nat) => r = r' ∧ r.1 + r.2 ≤ rowCountOf buffers)
      rs rs := List.forall₂_same.2 fun r hr => ⟨rfl, htiled.inside r hr⟩
  obtain ⟨fs, hfs, hcovers⟩ := exists_mapM_eq_ok (f := t.frame index (.ofColumns buffers))
    (R := fun range f => f.range = range ∧ f.Covers index buffers) hranges
    fun r _ ⟨hr, hle⟩ => hr ▸ h.exists_frame rfl hmemory index _ hle
  have hmap : fs.map Frame.range = rs :=
    List.forall₂_eq_eq_eq ▸ List.forall₂_map_left_iff.2 (hcovers.flip.imp fun _ _ hf => hf.1)
  refine ⟨fs, ?_, hmap ▸ htiled, fun f hf => ?_⟩
  · have hcount : (Partition.ofColumns buffers).rowCount = rowCountOf buffers := rfl
    rw [partitionFrames, hcount, hrs]
    exact hfs
  · obtain ⟨i, hi⟩ := List.mem_iff_getElem?.1 hf
    obtain ⟨_, -, hcover⟩ := exists_getElem?_of_forall₂ hcovers.flip hi
    exact hcover.2

/-- A table whose partitions were accepted is cut into frames that tile them one after the
other. -/
theorem exists_frames_tiles
    (hpushed : List.Forall₂ (List.Forall₂ ColumnBuffer.Holds) parts tables)
    (haccepted : ∀ part ∈ parts, t.misfit? part = none)
    (hmemory : ∀ part ∈ parts, ∀ b ∈ part, b.memory.size < 1 <<< 63)
    (hlimit : 0 < t.rowsPerFrame) (hword : t.rowsPerFrame < 1 <<< 64)
    (hpartitions : t.partitions = (parts.map Partition.ofColumns).toArray) :
    ∃ tiles, t.frames = .ok tiles.flatten ∧ TilesEach t.rowsPerFrame parts tiles := by
  have hzip : (List.range t.partitions.size).zip t.partitions.toList =
      parts.zipIdx.map fun p => (p.2, Partition.ofColumns p.1) := by
    refine List.ext_getElem (by simp [hpartitions]) fun i hi hi' => ?_
    simp [hpartitions]
  obtain ⟨tiles, hframes, htiles⟩ := exists_mapM_eq_ok (f := fun ip => t.partitionFrames ip.1 ip.2)
    (P := fun ip (p : List ColumnBuffer × Nat) => ip = (p.2, Partition.ofColumns p.1) ∧ p.1 ∈ parts)
    (R := fun p fs => Tiles t.rowsPerFrame p.2 p.1 fs)
    (List.forall₂_map_left_iff.2 (List.forall₂_same.2 fun p hp =>
      ⟨rfl, List.fst_mem_of_mem_zipIdx hp⟩))
    fun ip p ⟨hip, hpart⟩ => by
      subst hip
      obtain ⟨i, hi⟩ := List.mem_iff_getElem?.1 hpart
      obtain ⟨columns, -, hholds⟩ := exists_getElem?_of_forall₂ hpushed hi
      exact exists_tiles hlimit hword (filled_of_misfit (haccepted p.1 hpart) hholds)
        (hmemory p.1 hpart) p.2
  refine ⟨tiles, ?_, htiles⟩
  rw [frames, hzip, hframes]
  rfl

/-- The frames of a table whose partitions were accepted show all their rows, partition after
partition. -/
theorem exists_frames (hpushed : List.Forall₂ (List.Forall₂ ColumnBuffer.Holds) parts tables)
    (haccepted : ∀ part ∈ parts, t.misfit? part = none)
    (hmemory : ∀ part ∈ parts, ∀ b ∈ part, b.memory.size < 1 <<< 63)
    (hlimit : 0 < t.rowsPerFrame) (hword : t.rowsPerFrame < 1 <<< 64)
    (hpartitions : t.partitions = (parts.map Partition.ofColumns).toArray) :
    ∃ fs, t.frames = .ok fs ∧ ShowRows t.schema.types fs (tables.flatMap rowsOf) := by
  obtain ⟨tiles, hframes, htiles⟩ :=
    exists_frames_tiles hpushed haccepted hmemory hlimit hword hpartitions
  have hlen : tiles.length = parts.length := by simpa using htiles.length_eq.symm
  refine ⟨tiles.flatten, hframes,
    ShowRows.flatten (List.forall₂_iff_get.2 ⟨?_, fun i hi hi' => ?_⟩)⟩
  · rw [hlen, hpushed.length_eq]
  · have hpart : i < parts.length := hlen ▸ hi'
    have htile := (List.forall₂_iff_get.1 htiles).2 i (by simpa using hpart) hi'
    rw [List.get_eq_getElem, List.getElem_zipIdx] at htile
    exact htile.showRows (filled_of_misfit (haccepted _ (List.getElem_mem hpart))
      ((List.forall₂_iff_get.1 hpushed).2 i hpart hi))

end Table

end TableScan
