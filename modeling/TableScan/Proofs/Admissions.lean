import TableScan.Proofs.Cuttings

/-!
# Admissions

What a table admits, and what it keeps when it refuses something.  A column takes values of its own
type, and a table takes partitions that have the columns of its schema, all of one length; what is
refused changes nothing.  Main statement: whatever was tried before, each column of each partition
of a table holds its row count times the width of its type (`Table.admits_iff_fitting`).
-/

namespace TableScan

/-! ## Pushes -/

/-- Something that is pushed into a column: a value, or a text by its key in a dictionary. -/
inductive Push
  | value (v : Cell)
  | text (s : String) (d : Dictionary)

/-- The value that is pushed. -/
def Push.cell : Push → Cell
  | value v => v
  | text s d => .int (d.put s).1

namespace ColumnBuffer

/-- The answer to a push. -/
def offer (c : ColumnBuffer) : Push → Except Fault ColumnBuffer
  | .value v => c.push v
  | .text s d => (c.pushText d s).1

/-- The column after a push, which may have been refused. -/
def after (c : ColumnBuffer) (p : Push) : ColumnBuffer := (c.offer p).toOption.getD c

/-- A column of a type, after these pushes. -/
def ofPushes (type : ColumnType) (ps : List Push) : ColumnBuffer := ps.foldl after { type }

variable {c c' : ColumnBuffer} {p : Push} {ps : List Push} {vs : List Cell} {type : ColumnType}

lemma offer_eq (c : ColumnBuffer) (p : Push) : c.offer p = c.push p.cell := by
  cases p <;> rfl

lemma offer_of_fits (h : p.cell.fits c.type = true) : c.offer p =
    .ok { c with memory := Bytes.append c.memory p.cell.bytes, rows := c.rows + 1 } :=
  (offer_eq c p).trans (push_eq_ok_iff.2 ⟨h, rfl⟩)

lemma offer_of_not_fits (h : ¬ p.cell.fits c.type = true) : c.offer p = .error .wrongType :=
  (offer_eq c p).trans (if_neg h)

lemma after_of_not_fits (h : ¬ p.cell.fits c.type = true) : c.after p = c := by
  rw [after, offer_of_not_fits h]
  rfl

lemma after_eq_of_offer (h : c.offer p = .ok c') : c.after p = c' := by
  rw [after, h]
  rfl

/-- A push of a value of the type of the column adds it; any other one leaves the column as it
is. -/
lemma Holds.after (h : c.Holds vs) (p : Push) :
    (c.after p).Holds (vs ++ [p.cell].filter (·.fits c.type)) ∧ (c.after p).type = c.type := by
  by_cases hfits : p.cell.fits c.type = true
  · have hoffer := offer_of_fits hfits
    rw [List.filter_cons_of_pos (by simpa using hfits), after_eq_of_offer hoffer]
    exact ⟨h.push ((offer_eq c p).symm.trans hoffer), rfl⟩
  · rw [List.filter_cons_of_neg (by simpa using hfits), after_of_not_fits hfits]
    exact ⟨by simpa using h, rfl⟩

/-- A column holds the values of its type among those that were pushed. -/
lemma Holds.foldl (h : c.Holds vs) (ps : List Push) :
    (ps.foldl ColumnBuffer.after c).Holds (vs ++ (ps.map Push.cell).filter (·.fits c.type)) ∧
      (ps.foldl ColumnBuffer.after c).type = c.type := by
  induction ps generalizing c vs with
  | nil => exact ⟨by simpa using h, rfl⟩
  | cons p ps ih =>
    obtain ⟨hstep, htype⟩ := h.after p
    obtain ⟨hrun, htype'⟩ := ih hstep
    rw [htype, List.append_assoc, ← List.filter_append] at hrun
    exact ⟨hrun, htype'.trans htype⟩

lemma Holds.ofPushes (type : ColumnType) (ps : List Push) :
    (ofPushes type ps).Holds ((ps.map Push.cell).filter (·.fits type)) :=
  (Holds.foldl (.new type) ps).1

lemma type_ofPushes (type : ColumnType) (ps : List Push) : (ofPushes type ps).type = type :=
  (Holds.foldl (.new type) ps).2

end ColumnBuffer

/-- The partition has the columns of the schema, and each of them holds its row count times the
width of its type. -/
def Partition.Full (p : Partition) (schema : Schema) : Prop :=
  p.columns.size = schema.size ∧ ∀ (i : Nat) (column : Column) (memory : ByteArray),
    schema.columns[i]? = some column → p.columns[i]? = some memory →
      memory.size = p.rowCount * column.type.width

/-- A change that is tried on a table: a partition, given by what was pushed into each of its
columns, or one of the settings of its scans. -/
inductive Amendment
  | partition (columns : List (ColumnType × List Push))
  | order (order : Order)
  | randomAccess (granted : Bool)
  | dictionary (column : Nat) (d : Dictionary)

/-- The columns that these pushes make. -/
def Amendment.buffers (columns : List (ColumnType × List Push)) : List ColumnBuffer :=
  columns.map fun (type, ps) => .ofPushes type ps

namespace Table

open Amendment (buffers)

/-- The table after a change, which may have been refused. -/
def after (t : Table) : Amendment → Table
  | .partition columns => (t.append (buffers columns)).toOption.getD t
  | .order order => { t with order }
  | .randomAccess granted => { t with randomAccess := granted }
  | .dictionary column d => { t with dictionaries := t.dictionaries.attach column d }

/-- The table of a schema, after these changes. -/
def ofAmendments (schema : Schema) (settings : Settings) (as : List Amendment) : Table :=
  as.foldl after (.ofSchema schema settings)

variable {t t' : Table} {schema : Schema} {columns : List (ColumnType × List Push)}
  {as : List Amendment}

lemma append_eq_ok_iff {bs : List ColumnBuffer} : t.append bs = .ok t' ↔
    Fitting t.schema bs ∧ t' = { t with partitions := t.partitions.push (.ofColumns bs) } := by
  rw [← misfit?_eq_none_iff]
  cases h : t.misfit? bs with
  | none => simp [append_eq_ok h, eq_comm]
  | some e => simp [append, h]

lemma rowCount_push (t : Table) (p : Partition) :
    rowCount { t with partitions := t.partitions.push p } = t.rowCount + p.rowCount :=
  Array.foldl_push ..

lemma after_partition_of_error {e : PartitionError}
    (h : t.append (buffers columns) = .error e) : t.after (.partition columns) = t := by
  rw [after, h]
  rfl

/-- The columns of a partition were all filled by pushes, so that each holds what its row count
says. -/
lemma full_ofColumns (h : Fitting schema (buffers columns)) :
    (Partition.ofColumns (buffers columns)).Full schema := by
  refine ⟨by simpa [Partition.ofColumns] using h.length_eq, fun i column memory hc hm => ?_⟩
  have hmemory : ((buffers columns).map (·.memory))[i]? = some memory := by
    simpa [Partition.ofColumns] using hm
  rw [List.getElem?_map] at hmemory
  obtain ⟨b, hb, rfl⟩ := Option.map_eq_some_iff.1 hmemory
  obtain ⟨⟨type, ps⟩, -, rfl⟩ := List.mem_map.1 (List.mem_of_getElem? hb)
  have hfull : (ColumnBuffer.ofPushes type ps).Full := (ColumnBuffer.Holds.ofPushes type ps).full
  rw [hfull, h.type_eq i column _ hc hb, h.rows_eq_rowCountOf _ (List.mem_of_getElem? hb)]
  rfl

/-- A change leaves the schema and keeps the partitions full. -/
lemma full_after (a : Amendment) (hfull : ∀ p ∈ t.partitions, p.Full t.schema) :
    (t.after a).schema = t.schema ∧ ∀ p ∈ (t.after a).partitions, p.Full t.schema := by
  cases a with
  | partition columns =>
    cases happend : t.append (buffers columns) with
    | error e =>
      rw [after_partition_of_error happend]
      exact ⟨rfl, hfull⟩
    | ok t' =>
      obtain ⟨hfits, rfl⟩ := append_eq_ok_iff.1 happend
      rw [after, happend]
      refine ⟨rfl, fun p hp => ?_⟩
      rcases Array.mem_push.1 hp with hp | rfl
      · exact hfull p hp
      · exact full_ofColumns hfits
  | order => exact ⟨rfl, hfull⟩
  | randomAccess => exact ⟨rfl, hfull⟩
  | dictionary => exact ⟨rfl, hfull⟩

lemma full_foldl (as : List Amendment) (hfull : ∀ p ∈ t.partitions, p.Full t.schema) :
    (as.foldl after t).schema = t.schema ∧
      ∀ p ∈ (as.foldl after t).partitions, p.Full t.schema := by
  induction as generalizing t with
  | nil => exact ⟨rfl, hfull⟩
  | cons a as ih =>
    obtain ⟨hschema, hstep⟩ := full_after a hfull
    rw [← hschema] at hstep ⊢
    exact ih hstep

/-- Whatever was pushed into a column, it holds the values of its type among that and nothing
else, and takes one more value just if it has its type; a push that is refused leaves the column as
it is.  Whatever was tried on a table, it takes a partition just if it has as many columns as the
schema, each of the type there and all of one length: it then has this one partition more, and
otherwise an argument is refused and the table stays as it is.  Each column of each of its
partitions holds the row count of the partition times the width of its type. -/
theorem admits_iff_fitting {settings : Settings} (htable : ofAmendments schema settings as = t) :
    (∀ (type : ColumnType) (ps : List Push),
      (ColumnBuffer.ofPushes type ps).Holds ((ps.map Push.cell).filter (·.fits type)) ∧
      (ColumnBuffer.ofPushes type ps).memory.size =
        (ColumnBuffer.ofPushes type ps).rows * type.width ∧
      ∀ p : Push, if p.cell.fits type
        then ∃ c, (ColumnBuffer.ofPushes type ps).offer p = .ok c ∧
          (ColumnBuffer.ofPushes type ps).after p = c ∧
          c.rows = (ColumnBuffer.ofPushes type ps).rows + 1
        else (ColumnBuffer.ofPushes type ps).offer p = .error .wrongType ∧
          (ColumnBuffer.ofPushes type ps).after p = .ofPushes type ps) ∧
    (∀ columns, ((∃ t', t.append (buffers columns) = .ok t') ↔ Fitting schema (buffers columns)) ∧
      (∀ t', t.append (buffers columns) = .ok t' →
        t' = { t with partitions := t.partitions.push (.ofColumns (buffers columns)) } ∧
        t'.rowCount = t.rowCount + rowCountOf (buffers columns)) ∧
      ∀ e, t.append (buffers columns) = .error e →
        e.toFailure = .argument e.message ∧ t.after (.partition columns) = t) ∧
    ∀ p ∈ t.partitions, p.Full schema := by
  obtain ⟨hschema, hfull⟩ : t.schema = schema ∧ ∀ p ∈ t.partitions, p.Full schema :=
    htable ▸ full_foldl as (t := .ofSchema schema settings) fun _ hp =>
      absurd hp (Array.not_mem_empty _)
  refine ⟨fun type ps => ⟨.ofPushes type ps, ?_, fun p => ?_⟩, fun columns => ⟨?_, ?_, ?_⟩, hfull⟩
  · have hc : (ColumnBuffer.ofPushes type ps).Full := (ColumnBuffer.Holds.ofPushes type ps).full
    rw [hc, ColumnBuffer.type_ofPushes]
  · have htype := ColumnBuffer.type_ofPushes type ps
    split
    · rename_i hfits
      have hoffer := ColumnBuffer.offer_of_fits (htype.symm ▸ hfits)
      exact ⟨_, hoffer, ColumnBuffer.after_eq_of_offer hoffer, rfl⟩
    · rename_i hfits
      exact ⟨ColumnBuffer.offer_of_not_fits (htype.symm ▸ hfits),
        ColumnBuffer.after_of_not_fits (htype.symm ▸ hfits)⟩
  · simp only [append_eq_ok_iff, hschema, exists_and_left, exists_eq, and_true]
  · intro t' h
    obtain ⟨-, rfl⟩ := append_eq_ok_iff.1 h
    exact ⟨rfl, rowCount_push ..⟩
  · exact fun e h => ⟨rfl, after_partition_of_error h⟩

/-- A table of one column of longs, with a partition of two rows (the flag that was pushed between
them was refused) and none of a partition of two columns.  It takes a partition of one row. -/
theorem admits_iff_fitting_longs :
    let t := ofAmendments ⟨#[⟨"n", .i64⟩]⟩ {} [
      .partition [(.i64, [.value (.long 7), .value (.bool true), .value (.long 8)])],
      .partition [(.i64, [.value (.long 7)]), (.i64, [])]]
    t.rowCount = 2 ∧
      ∃ t', t.append (buffers [(.i64, [.value (.long 9)])]) = .ok t' ∧ t'.rowCount = 3 := by
  intro t
  have htable : ofAmendments ⟨#[⟨"n", .i64⟩]⟩ {} _ = t := rfl
  obtain ⟨-, hpartition, -⟩ := admits_iff_fitting htable
  obtain ⟨hiff, hgrows, -⟩ := hpartition [(.i64, [.value (.long 9)])]
  have hfits : Fitting ⟨#[⟨"n", .i64⟩]⟩ (buffers [(.i64, [.value (.long 9)])]) := by
    refine ⟨rfl, fun i column b hc hb => ?_, fun b hb b' hb' => ?_⟩
    · cases i with
      | zero => exact Option.some.inj hb ▸ Option.some.inj hc ▸ rfl
      | succ i => cases hb
    · rw [List.mem_singleton.1 hb, List.mem_singleton.1 hb']
  obtain ⟨t', ht'⟩ := hiff.2 hfits
  exact ⟨by decide +kernel, t', ht', (hgrows t' ht').2⟩

end Table

end TableScan
