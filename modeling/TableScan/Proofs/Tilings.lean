import Mathlib.Algebra.Order.BigOperators.Group.List
import Mathlib.Algebra.Order.Ring.Nat
import TableScan.Proofs.Independence

/-!
# Tilings

The frames of a table of partitions that were accepted.  Main statement: whatever the length of the
frames is, cutting the table ends without a fault, and its frames tile the partitions in their
order (`Table.frames_tile`).
-/

namespace TableScan

namespace Table

variable {schema : Schema} {settings : Settings} {t : Table} {parts : List (List ColumnBuffer)}
  {tables : List (List (List Cell))} {limit : Nat}

/-! ## Tables of accepted partitions -/

/-- A table of partitions that were accepted. -/
structure Gathers (t : Table) (schema : Schema) (settings : Settings)
    (parts : List (List ColumnBuffer)) : Prop where
  schema_eq : t.schema = schema
  rowsPerFrame_eq : t.rowsPerFrame = settings.rowsPerFrame
  accepted : ∀ part ∈ parts, t.misfit? part = none
  partitions_eq : t.partitions = (parts.map Partition.ofColumns).toArray

lemma gathers_of_appendAll (h : (ofSchema schema settings).appendAll parts = .ok t) :
    t.Gathers schema settings parts := by
  obtain ⟨hnone, rfl⟩ := appendAll_eq_ok_iff.1 h
  exact ⟨rfl, rfl, hnone, Array.empty_append⟩

namespace Gathers

/-- The columns of a partition are filled as its schema says. -/
lemma filled (h : t.Gathers schema settings parts)
    (hpushed : List.Forall₂ (List.Forall₂ ColumnBuffer.Holds) parts tables) {i : Nat}
    {part : List ColumnBuffer} (hpart : parts[i]? = some part) :
    ∃ columns, tables[i]? = some columns ∧
      Filled schema.types (rowCountOf part) part columns := by
  obtain ⟨columns, hcolumns, hholds⟩ := exists_getElem?_of_forall₂ hpushed hpart
  have hfilled := filled_of_misfit (h.accepted part (List.mem_of_getElem? hpart)) hholds
  exact ⟨columns, hcolumns, h.schema_eq ▸ hfilled⟩

lemma exists_tiles (h : t.Gathers schema settings parts)
    (hpushed : List.Forall₂ (List.Forall₂ ColumnBuffer.Holds) parts tables)
    (hmemory : ∀ part ∈ parts, ∀ b ∈ part, b.memory.size < 1 <<< 63)
    (hword : settings.rowsPerFrame < 1 <<< 64) :
    ∃ tiles, t.frames = .ok tiles.flatten ∧ TilesEach settings.rowsPerFrame parts tiles := by
  have hpos : 0 < settings.rowsPerFrame := Nat.le_max_left ..
  rw [← h.rowsPerFrame_eq] at hpos hword ⊢
  exact exists_frames_tiles hpushed h.accepted hmemory hpos hword h.partitions_eq

lemma rowCount_eq (h : t.Gathers schema settings parts) :
    t.rowCount = (parts.map rowCountOf).sum := by
  rw [rowCount, h.partitions_eq, ← Array.foldl_toList, List.foldl_map, List.sum_eq_foldl,
    List.foldl_map]
  rfl

end Gathers

/-! ## Numbers of rows -/

/-- Frames that tile a partition have as many rows as the partition. -/
lemma Tiles.sum_rowCount {index : Nat} {part : List ColumnBuffer} {fs : List Frame}
    (h : Tiles limit index part fs) : (fs.map Frame.rowCount).sum = rowCountOf part := by
  have hlen := congrArg List.length h.tiled.rows_eq
  rw [List.length_range, List.length_flatMap] at hlen
  rw [← hlen, List.map_map]
  simp [Frame.range, Function.comp_def]

lemma TilesEach.sum_rowCount {tiles : List (List Frame)} (h : TilesEach limit parts tiles) :
    (tiles.flatten.map Frame.rowCount).sum = (parts.map rowCountOf).sum := by
  have hparts : parts.map rowCountOf = tiles.map fun fs => (fs.map Frame.rowCount).sum := by
    have hfst : (parts.zipIdx.map fun p => rowCountOf p.1) = parts.map rowCountOf := by
      conv_rhs => rw [← List.zipIdx_map_fst 0 parts, List.map_map]
      rfl
    rw [← hfst]
    exact List.forall₂_eq_eq_eq ▸ List.forall₂_map_left_iff.2
      (List.forall₂_map_right_iff.2 (List.Forall₂.imp (fun _ _ htiles =>
        htiles.sum_rowCount.symm) h))
  rw [hparts, List.map_flatten, List.sum_flatten, List.map_map]
  rfl

/-- The bytes that the columns of a partition take in memory. -/
def bytesOf (part : List ColumnBuffer) : Nat := (part.map fun b => b.memory.size).sum

/-- A partition has no more rows than bytes. -/
lemma rowCountOf_le {types : Array ColumnType} {part : List ColumnBuffer}
    {columns : List (List Cell)} (h : Filled types (rowCountOf part) part columns) :
    rowCountOf part ≤ bytesOf part := by
  cases part with
  | nil => exact Nat.zero_le _
  | cons b rest =>
    have hsize := h.size_memory List.mem_cons_self
    have hle : rowCountOf (b :: rest) ≤ b.memory.size :=
      hsize ▸ Nat.le_mul_of_pos_right _ b.type.width_pos
    rw [bytesOf, List.map_cons, List.sum_cons]
    omega

lemma Gathers.rowCount_le (h : t.Gathers schema settings parts)
    (hpushed : List.Forall₂ (List.Forall₂ ColumnBuffer.Holds) parts tables) :
    t.rowCount ≤ (parts.map bytesOf).sum := by
  rw [h.rowCount_eq]
  refine List.sum_le_sum fun part hpart => ?_
  obtain ⟨i, hi⟩ := List.mem_iff_getElem?.1 hpart
  obtain ⟨columns, -, hfilled⟩ := h.filled hpushed hi
  exact rowCountOf_le hfilled

/-- Cutting a table of partitions that were accepted ends without a fault: no number leaves its
word, and no window its memory.  The frames come partition after partition and tile each of them:
they follow one another from the first row to the last, and all but the last have as many rows as
a frame may have; a partition without rows has one frame without rows.  Of each column, which has
the type that the schema says, a frame has the window of its own rows.  The frames have as many
rows together as the table, which are no more than there are bytes. -/
theorem frames_tile
    (hpushed : List.Forall₂ (List.Forall₂ ColumnBuffer.Holds) parts tables)
    (hmemory : ∀ part ∈ parts, ∀ b ∈ part, b.memory.size < 1 <<< 63)
    (haccepted : (ofSchema schema settings).appendAll parts = .ok t)
    (hword : settings.rowsPerFrame < 1 <<< 64) :
    ∃ tiles, t.frames = .ok tiles.flatten ∧ TilesEach settings.rowsPerFrame parts tiles ∧
      (∀ part ∈ parts, part.map (·.type) = schema.types.toList) ∧
      (tiles.flatten.map Frame.rowCount).sum = t.rowCount ∧
      t.rowCount ≤ (parts.map bytesOf).sum := by
  have h := gathers_of_appendAll haccepted
  obtain ⟨tiles, hframes, htiles⟩ := h.exists_tiles hpushed hmemory hword
  refine ⟨tiles, hframes, htiles, ?_, ?_, h.rowCount_le hpushed⟩
  · intro part hpart
    obtain ⟨i, hi⟩ := List.mem_iff_getElem?.1 hpart
    obtain ⟨columns, -, hfilled⟩ := h.filled hpushed hi
    exact hfilled.types
  · rw [h.rowCount_eq, htiles.sum_rowCount]

open Workshop

/-- Columns of five rows, of none and of one. -/
def sixRows : List (List ColumnBuffer) :=
  [[pushedLongs [1, 2, 3, 4, 5]], [pushedLongs []], [pushedLongs [6]]]

lemma holds_sixRows : List.Forall₂ (List.Forall₂ ColumnBuffer.Holds) sixRows
    [[[1, 2, 3, 4, 5].map .long], [[].map .long], [[6].map .long]] :=
  .cons (.cons (holds_pushedLongs _) .nil) (.cons (.cons (holds_pushedLongs _) .nil)
    (.cons (.cons (holds_pushedLongs _) .nil) .nil))

/-- The table of these columns with two rows to a frame. -/
def pairwise : Table :=
  { ofSchema whole { frameRows := some 2 } with
    partitions := (sixRows.map .ofColumns).toArray }

lemma appendAll_sixRows :
    (ofSchema whole { frameRows := some 2 }).appendAll sixRows = .ok pairwise :=
  appendAll_eq_ok_iff.2 ⟨by decide +kernel, by rw [pairwise, ofSchema, Array.empty_append]⟩

/-- Five rows, none and one, with two rows to a frame. -/
theorem pairwise_tiled :
    ∃ fs, pairwise.frames = .ok fs ∧
      fs.map (fun f => (f.partition, f.range)) =
        [(0, 0, 2), (0, 2, 2), (0, 4, 1), (1, 0, 0), (2, 0, 1)] ∧
      (fs.map Frame.rowCount).sum = pairwise.rowCount := by
  obtain ⟨tiles, hframes, -, -, hsum, -⟩ :=
    frames_tile holds_sixRows (by decide +kernel) appendAll_sixRows (by decide)
  refine ⟨tiles.flatten, hframes, ?_, hsum⟩
  have hshape : pairwise.frames.map (List.map fun f => (f.partition, f.range)) =
    .ok [(0, 0, 2), (0, 2, 2), (0, 4, 1), (1, 0, 0), (2, 0, 1)] := by decide +kernel
  rw [hframes] at hshape
  exact Except.ok.inj hshape

/-- A limit of nearly a word gives one frame. -/
example : ranges (1 <<< 64 - 1) 5 = .ok [(0, 5)] := by decide +kernel

end Table

end TableScan
