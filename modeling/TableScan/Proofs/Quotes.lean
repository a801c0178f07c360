import TableScan.CommandLine.Synthetic
import TableScan.Proofs.Cuttings

/-!
# Tables of quotes

A synthetic table is made as long as its timestamps fit a word.  Main statement: it has the
partitions and rows that were asked for, its frames show a quote a second, partition after
partition, and there are as many frames as the row limit makes of each partition
(`Synthetic.exists_table`).
-/

namespace TableScan

lemma ok_bind {ε α β : Type} (a : α) (f : α → Except ε β) : (Except.ok a >>= f) = f a := rfl

lemma exists_of_bind_eq_ok {ε α β : Type} {x : Except ε α} {f : α → Except ε β} {b : β}
    (h : x >>= f = .ok b) : ∃ a, x = .ok a ∧ f a = .ok b := by
  cases x with
  | error e => cases h
  | ok a => exact ⟨a, rfl, h⟩

/-! ## The number of frames -/

namespace Table

/-- The number of ranges into which so many rows are cut. -/
def cuts (limit rows : Nat) : Nat := max 1 ((rows + limit - 1) / limit)

lemma length_ranges {limit rows : Nat} {rs : List (Nat × Nat)} (h : ranges limit rows = .ok rs)
    (hpos : 0 < limit) : rs.length = cuts limit rows := by
  rcases Nat.eq_zero_or_pos rows with rfl | hsome
  · obtain rfl : [(0, 0)] = rs := Except.ok.inj h
    have hnone : (0 + limit - 1) / limit = 0 := Nat.div_eq_of_lt (by omega)
    rw [cuts, hnone]
    rfl
  · have hone : 1 ≤ (rows + limit - 1) / limit := (Nat.one_le_div_iff hpos).2 (by omega)
    rw [(lined_of_ranges h hpos hsome).length_eq hpos, Nat.sub_zero, cuts, Nat.max_eq_right hone]

variable {t : Table}

lemma length_partitionFrames {index : Nat} {p : Partition} {fs : List Frame}
    (h : t.partitionFrames index p = .ok fs) (hpos : 0 < t.rowsPerFrame) :
    fs.length = cuts t.rowsPerFrame p.rowCount := by
  unfold partitionFrames at h
  obtain ⟨rs, hr, hframes⟩ := exists_of_bind_eq_ok h
  rw [← (forall₂_of_mapM hframes).length_eq, length_ranges hr hpos]

/-- A table of partitions of equal length has as many frames from each of them. -/
lemma length_frames {fs : List Frame} {rows : Nat} (h : t.frames = .ok fs)
    (hpos : 0 < t.rowsPerFrame) (hrows : ∀ p ∈ t.partitions.toList, p.rowCount = rows) :
    fs.length = t.partitions.size * cuts t.rowsPerFrame rows := by
  unfold frames at h
  obtain ⟨parts, hm, hflat⟩ := exists_of_bind_eq_ok h
  obtain rfl : parts.flatten = fs := Except.ok.inj hflat
  have hall := forall₂_of_mapM hm
  have hlength : ∀ part ∈ parts, part.length = cuts t.rowsPerFrame rows := by
    intro part hpart
    obtain ⟨i, hi⟩ := List.mem_iff_getElem?.1 hpart
    obtain ⟨⟨index, p⟩, hp, hframes⟩ := exists_getElem?_of_forall₂ hall.flip hi
    have hmem := (List.of_mem_zip (List.mem_of_getElem? hp)).2
    rw [length_partitionFrames hframes hpos, hrows p hmem]
  have hcount : parts.length = t.partitions.size := by
    rw [← hall.length_eq]
    simp
  rw [List.length_flatten, List.map_congr_left hlength, List.map_const', List.sum_replicate_nat,
    hcount]

lemma rowCount_eq {rows : Nat} (hrows : ∀ p ∈ t.partitions.toList, p.rowCount = rows) :
    t.rowCount = t.partitions.size * rows := by
  have hsum : ∀ (l : List Partition) (n : Nat), (∀ p ∈ l, p.rowCount = rows) →
      l.foldl (fun n p => n + p.rowCount) n = n + l.length * rows := by
    intro l
    induction l with
    | nil => simp
    | cons p l ih =>
      intro n hl
      rw [List.foldl_cons, ih _ fun q hq => hl q (List.mem_cons_of_mem _ hq),
        hl p List.mem_cons_self, List.length_cons, Nat.succ_mul]
      omega
  rw [rowCount, ← Array.foldl_toList, hsum _ _ hrows, Nat.zero_add, Array.length_toList]

end Table

/-! ## Quotes -/

/-- One more step of a loop over a range. -/
lemma foldlM_range_succ {ε α : Type} {f : α → Nat → Except ε α} {a b : α} {n : Nat}
    (h : (List.range n).foldlM f a = .ok b) : (List.range (n + 1)).foldlM f a = f b n := by
  rw [List.range_succ, List.foldlM_append, h, ok_bind, List.foldlM_cons]
  exact bind_pure _

namespace Synthetic

/-- The values of the quote at a place of the table, with the key of its venue. -/
def quoteRow (quotes : Nat → Quote) (place : Nat) (key : Int32) : List Cell :=
  [.long (Int64.ofNat (place * 1000000)), .double (quotes place).price, .int key]

/-- The row of a quote, whatever the key of its venue is. -/
def Quotes (quotes : Nat → Quote) (place : Nat) (row : List Cell) : Prop :=
  ∃ key, row = quoteRow quotes place key

variable {quotes : Nat → Quote} {first rows : Nat} {columns : Columns} {keys : List Int32}

lemma timestamp_eq {place : Nat} (h : place * 1000000 < 1 <<< 64) :
    timestamp place = .ok (Int64.ofNat (place * 1000000)) := if_pos h

lemma addRow_eq {place : Nat} {columns : Columns} {times prices venues : ColumnBuffer}
    {d d' : Dictionary} {time : Int64} {key : Int32} (htime : timestamp place = .ok time)
    (htimes : columns.times.push (.long time) = .ok times)
    (hprices : columns.prices.push (.double (quotes place).price) = .ok prices)
    (hput : d.put (quotes place).venue = (key, d'))
    (hvenues : columns.venues.push (.int key) = .ok venues) :
    addRow quotes (columns, d) place = .ok (⟨times, prices, venues⟩, d') := by
  rw [addRow]
  simp only [htime, htimes, hprices, ColumnBuffer.pushText, hput, hvenues, ok_bind]
  rfl

/-- Columns that hold so many quotes, from a place of the table on. -/
structure Columns.Hold (columns : Columns) (quotes : Nat → Quote) (first rows : Nat)
    (keys : List Int32) : Prop where
  times : columns.times.Holds
    ((List.range rows).map fun r => .long (Int64.ofNat ((first + r) * 1000000)))
  prices : columns.prices.Holds ((List.range rows).map fun r => .double (quotes (first + r)).price)
  venues : columns.venues.Holds (keys.map .int)
  keys : keys.length = rows
  types : columns.times.type = .timestamp ∧ columns.prices.type = .f64 ∧
    columns.venues.type = .symbol

lemma Columns.Hold.addRow (h : columns.Hold quotes first rows keys)
    (hword : (first + rows) * 1000000 < 1 <<< 64) (d : Dictionary) :
    ∃ columns' d' keys', addRow quotes (columns, d) (first + rows) = .ok (columns', d') ∧
      columns'.Hold quotes first (rows + 1) keys' := by
  have push : ∀ {c : ColumnBuffer} {type : ColumnType} {v : Cell}, c.type = type →
      v.fits type = true → ∃ c', c.push v = .ok c' ∧ c'.type = type :=
    fun hc hv => ⟨_, ColumnBuffer.push_eq_ok_iff.2 ⟨hc ▸ hv, rfl⟩, hc⟩
  obtain ⟨times, htimes, ht⟩ := push (v := .long (Int64.ofNat ((first + rows) * 1000000)))
    h.types.1 rfl
  obtain ⟨prices, hprices, hp⟩ := push (v := .double (quotes (first + rows)).price) h.types.2.1 rfl
  rcases hput : d.put (quotes (first + rows)).venue with ⟨key, d'⟩
  obtain ⟨venues, hvenues, hv⟩ := push (v := .int key) h.types.2.2 rfl
  refine ⟨⟨times, prices, venues⟩, d', keys ++ [key], ?_, ?_, ?_, ?_, ?_, ht, hp, hv⟩
  · exact addRow_eq (timestamp_eq hword) htimes hprices hput hvenues
  · rw [List.range_succ, List.map_append]
    exact h.times.push htimes
  · rw [List.range_succ, List.map_append]
    exact h.prices.push hprices
  · rw [List.map_append]
    exact h.venues.push hvenues
  · rw [List.length_append, h.keys, List.length_singleton]

/-- The columns of a partition hold its quotes. -/
lemma exists_partition (quotes : Nat → Quote) (hword : (first + rows) * 1000000 ≤ 1 <<< 64)
    (d : Dictionary) :
    ∃ columns d' keys, partition quotes rows first d = .ok (columns, d') ∧
      columns.Hold quotes first rows keys := by
  induction rows with
  | zero => exact ⟨{}, d, [], rfl, .new _, .new _, .new _, rfl, rfl, rfl, rfl⟩
  | succ rows ih =>
    have hlt : (first + rows) * 1000000 < 1 <<< 64 := by omega
    obtain ⟨columns, d', keys, hpartition, hold⟩ := ih (Nat.le_of_lt hlt)
    obtain ⟨columns', d'', keys', hrow, hold'⟩ := hold.addRow hlt d'
    refine ⟨columns', d'', keys', ?_, hold'⟩
    exact (foldlM_range_succ hpartition).trans hrow

namespace Columns.Hold

variable (h : columns.Hold quotes first rows keys)

include h

/-- The rows of the columns are the quotes. -/
lemma rowsOf : List.Forall₂ (Quotes quotes) ((List.range rows).map (first + ·))
    (TableScan.rowsOf [(List.range rows).map fun r => .long (Int64.ofNat ((first + r) * 1000000)),
      (List.range rows).map fun r => .double (quotes (first + r)).price, keys.map .int]) := by
  refine List.forall₂_map_left_iff.2 ?_
  have hlength : ((([(List.range rows).map fun r => Cell.long (Int64.ofNat ((first + r) * 1000000)),
      (List.range rows).map fun r => .double (quotes (first + r)).price,
      keys.map .int] : List (List Cell)).map List.length).headD 0) = rows := by simp
  rw [TableScan.rowsOf, hlength]
  refine List.forall₂_map_right_iff.2 (List.forall₂_same.2 fun r hr => ?_)
  have hlt := List.mem_range.1 hr
  obtain ⟨key, hkey⟩ : ∃ key, keys[r]? = some key :=
    ⟨_, List.getElem?_eq_getElem (h.keys.symm ▸ hlt)⟩
  exact ⟨key, by simp [rowAt, quoteRow, hlt, hkey]⟩

lemma rows_eq : columns.times.rows = rows ∧ columns.prices.rows = rows ∧
    columns.venues.rows = rows := by
  refine ⟨?_, ?_, ?_⟩
  · simpa using h.times.rows_eq
  · simpa using h.prices.rows_eq
  · simpa [h.keys] using h.venues.rows_eq

/-- The columns make up a partition of the table. -/
lemma misfit? {t : Table} (ht : t.schema = schema) :
    t.misfit? [columns.times, columns.prices, columns.venues] = none := by
  obtain ⟨hprices, hvenues⟩ : columns.prices.rows = columns.times.rows ∧
      columns.venues.rows = columns.times.rows := by
    obtain ⟨h₁, h₂, h₃⟩ := h.rows_eq
    exact ⟨h₂.trans h₁.symm, h₃.trans h₁.symm⟩
  simp [Table.misfit?, ht, schema, Schema.size, Table.rowCountOf, Table.firstMisfit,
    List.range_succ, h.types, hprices, hvenues]

lemma size_lt (hrows : rows * 8 < 1 <<< 63) :
    ∀ b ∈ [columns.times, columns.prices, columns.venues], b.memory.size < 1 <<< 63 := by
  have size : ∀ {c : ColumnBuffer} {vs : List Cell} {type : ColumnType}, c.Holds vs →
      c.rows = rows → c.type = type → type.width ≤ 8 → c.memory.size < 1 <<< 63 := by
    intro c vs type hc hr ht hwidth
    rw [hc.full, hr, ht]
    exact Nat.lt_of_le_of_lt (Nat.mul_le_mul_left rows hwidth) hrows
  obtain ⟨h₁, h₂, h₃⟩ := h.rows_eq
  intro b hb
  simp only [List.mem_cons, List.not_mem_nil, or_false] at hb
  rcases hb with rfl | rfl | rfl
  · exact size h.times h₁ h.types.1 (by decide)
  · exact size h.prices h₂ h.types.2.1 (by decide)
  · exact size h.venues h₃ h.types.2.2 (by decide)

end Columns.Hold

/-! ## Tables of quotes -/

/-- Columns of so many partitions that hold the quotes of a table. -/
structure Parts (quotes : Nat → Quote) (rows count : Nat) (parts : List (List ColumnBuffer))
    (tables : List (List (List Cell))) : Prop where
  length : parts.length = count
  holds : List.Forall₂ (List.Forall₂ ColumnBuffer.Holds) parts tables
  fit : ∀ part ∈ parts, ∀ t : Table, t.schema = schema → t.misfit? part = none
  size_lt : rows * 8 < 1 <<< 63 → ∀ part ∈ parts, ∀ b ∈ part, b.memory.size < 1 <<< 63
  rowCount : ∀ part ∈ parts, Table.rowCountOf part = rows
  quotes : List.Forall₂ (Quotes quotes) (List.range (count * rows))
    (tables.flatMap TableScan.rowsOf)

variable {count : Nat} {parts : List (List ColumnBuffer)} {tables : List (List (List Cell))}

/-- One more partition. -/
lemma Parts.add (h : Parts quotes rows count parts tables)
    (hold : columns.Hold quotes (count * rows) rows keys) :
    ∃ tables', Parts quotes rows (count + 1)
      (parts ++ [[columns.times, columns.prices, columns.venues]]) tables' := by
  have hpart : List.Forall₂ ColumnBuffer.Holds [columns.times, columns.prices, columns.venues] _ :=
    .cons hold.times (.cons hold.prices (.cons hold.venues .nil))
  refine ⟨_, ?_, List.rel_append h.holds (.cons hpart .nil), ?_, ?_, ?_, ?_⟩
  · rw [List.length_append, h.length, List.length_singleton]
  · intro part hp t ht
    rcases List.mem_append.1 hp with hp | hp
    · exact h.fit part hp t ht
    · exact List.mem_singleton.1 hp ▸ hold.misfit? ht
  · intro hrows part hp
    rcases List.mem_append.1 hp with hp | hp
    · exact h.size_lt hrows part hp
    · exact List.mem_singleton.1 hp ▸ hold.size_lt hrows
  · intro part hp
    rcases List.mem_append.1 hp with hp | hp
    · exact h.rowCount part hp
    · exact List.mem_singleton.1 hp ▸ hold.rows_eq.1
  · rw [Nat.succ_mul, List.range_add, List.flatMap_append, List.flatMap_singleton]
    exact List.rel_append h.quotes hold.rowsOf

lemma grow_eq {t t' : Table} {index : Nat} {d d' : Dictionary}
    (hpartition : partition quotes rows (index * rows) d = .ok (columns, d'))
    (happend : t.append [columns.times, columns.prices, columns.venues] = .ok t') :
    grow quotes rows (t, d) index = .ok (t', d') := by
  simp only [grow, hpartition, Stop.ofFault, ok_bind, happend]
  rfl

/-- The partitions are added one after the other. -/
lemma exists_grown (quotes : Nat → Quote) {t : Table} (ht : t.schema = schema)
    (hnone : t.partitions = #[]) (hword : count * rows * 1000000 ≤ 1 <<< 64) :
    ∃ parts tables d, (List.range count).foldlM (grow quotes rows) (t, {}) =
        .ok ({ t with partitions := (parts.map Partition.ofColumns).toArray }, d) ∧
      Parts quotes rows count parts tables := by
  induction count with
  | zero =>
    refine ⟨[], [], {}, ?_, rfl, .nil, nofun, nofun, nofun, ?_⟩
    · have htable : t = { t with partitions := #[] } := by rw [← hnone]
      rw [htable]
      rfl
    · rw [Nat.zero_mul]
      exact .nil
  | succ count ih =>
    rw [Nat.succ_mul] at hword
    have hle : count * rows * 1000000 ≤ 1 <<< 64 :=
      Nat.le_trans (Nat.mul_le_mul_right _ (Nat.le_add_right ..)) hword
    obtain ⟨parts, tables, d, hfold, hparts⟩ := ih hle
    obtain ⟨columns, d', keys, hpartition, hold⟩ := exists_partition quotes hword d
    obtain ⟨tables', hparts'⟩ := hparts.add hold
    refine ⟨_, tables', d', ?_, hparts'⟩
    refine (foldlM_range_succ hfold).trans (grow_eq hpartition ?_)
    have hfit := hold.misfit?
      (t := { t with partitions := (parts.map Partition.ofColumns).toArray }) ht
    rw [Table.append_eq_ok hfit]
    simp

/-- A table of quotes, cut into frames that show them one after the other. -/
structure Made (quotes : Nat → Quote) (count rows : Nat) (settings : Settings) (order : Order)
    (t : Table) (frames : List Frame) (quoted : List (List Cell)) : Prop where
  schema : t.schema = schema
  order : t.order = order
  partitions : t.partitions.size = count
  rowCount : t.rowCount = count * rows
  supplied : t.frames = .ok frames
  shown : Table.ShowRows t.schema.types frames quoted
  quotes : List.Forall₂ (Quotes quotes) (List.range (count * rows)) quoted
  length : frames.length = count * Table.cuts settings.rowsPerFrame rows

/-- The table of so many quotes is made as long as their timestamps fit a word. -/
theorem exists_table (quotes : Nat → Quote) {settings : Settings}
    (hsize : count * rows * 1000000 < 1 <<< 63) (hword : settings.rowsPerFrame < 1 <<< 64)
    (order : Order) :
    ∃ t frames quoted, table quotes count rows settings order = .ok t ∧
      Made quotes count rows settings order t frames quoted := by
  have hpos : 0 < settings.rowsPerFrame := Nat.lt_of_lt_of_le Nat.zero_lt_one (Nat.le_max_left ..)
  obtain ⟨parts, tables, d, hfold, hparts⟩ := exists_grown quotes
    (t := { Table.ofSchema schema settings with order }) rfl rfl
    (Nat.le_trans (Nat.le_of_lt hsize) (by decide))
  let t : Table := { Table.ofSchema schema settings with
    order
    partitions := (parts.map Partition.ofColumns).toArray
    dictionaries := Dictionaries.attach {} 2 d }
  have hmemory : ∀ part ∈ parts, ∀ b ∈ part, b.memory.size < 1 <<< 63 := by
    intro part hpart
    refine hparts.size_lt ?_ part hpart
    have hcount : 0 < count := hparts.length ▸ List.length_pos_of_mem hpart
    have hrows : rows ≤ count * rows := Nat.le_mul_of_pos_left rows hcount
    exact Nat.lt_of_le_of_lt (Nat.mul_le_mul hrows (by decide)) hsize
  obtain ⟨frames, hframes, hshow⟩ := Table.exists_frames (t := t) hparts.holds
    (fun part hpart => hparts.fit part hpart t rfl) hmemory hpos hword rfl
  have hsizes : t.partitions.size = count := by simp [t, hparts.length]
  have hrows : ∀ p ∈ t.partitions.toList, p.rowCount = rows := by
    intro p hp
    obtain ⟨part, hpart, rfl⟩ := List.mem_map.1 (show p ∈ parts.map Partition.ofColumns from hp)
    exact hparts.rowCount part hpart
  refine ⟨t, frames, _, ?_, rfl, rfl, hsizes, ?_, hframes, hshow, hparts.quotes, ?_⟩
  · rw [table, hfold]
    rfl
  · rw [Table.rowCount_eq hrows, hsizes]
  · rw [Table.length_frames hframes hpos hrows, hsizes]
    rfl

end Synthetic

end TableScan
