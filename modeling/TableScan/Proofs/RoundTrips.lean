import TableScan.Proofs.Dictionaries
import TableScan.Proofs.Tilings
import TableScan.Proofs.Windows

/-!
# Round trips

What is pushed into the columns of a table can be read in its frames.  Main statement: in a
directory of the frames of a table, a view of any row of any frame reads in each column the value
that was pushed for that row, and in a symbol column the text that was pushed, as long as the
dictionary there is the one that the text was pushed through or a later one
(`Table.reads_what_was_pushed`).
-/

namespace TableScan

/-! ## Texts in columns -/

/-- A column that texts were pushed into, each through the dictionary as it was then, and the
dictionary afterwards; `none` stands for a number that was pushed as it is.  Meanwhile and
afterwards other texts may enter the dictionary. -/
inductive ColumnBuffer.Spells : ColumnBuffer → Dictionary → List (Option String) → Prop
  | new (type : ColumnType) (d : Dictionary) : Spells { type } d []
  | text {c c' : ColumnBuffer} {d d' : Dictionary} {ts : List (Option String)} {s : String}
      (spells : c.Spells d ts) (pushed : c.pushText d s = (.ok c', d')) :
      c'.Spells d' (ts ++ [some s])
  | number {c c' : ColumnBuffer} {d : Dictionary} {ts : List (Option String)} {key : Int32}
      (spells : c.Spells d ts) (pushed : c.push (.int key) = .ok c') :
      c'.Spells d (ts ++ [none])
  | put {c : ColumnBuffer} {d : Dictionary} {ts : List (Option String)} (spells : c.Spells d ts)
      (s : String) : c.Spells (d.put s).2 ts

namespace ColumnBuffer.Spells

variable {c : ColumnBuffer} {d : Dictionary} {ts : List (Option String)}

/-- A dictionary that was extended afterwards serves as well. -/
lemma putAll (h : c.Spells d ts) (more : List String) : c.Spells (d.putAll more) ts := by
  induction more generalizing d with
  | nil => exact h
  | cons s more ih => exact ih (h.put s)

/-- The column holds a key for each of the texts. -/
lemma holds (h : c.Spells d ts) :
    ∃ vs, c.Holds vs ∧ List.Forall₂ (fun t x => ∀ s, t = some s → d.Keys s x) ts vs := by
  induction h with
  | new type d => exact ⟨[], .new type, .nil⟩
  | @text c c' d d' ts s _ pushed ih =>
    obtain ⟨vs, hvs, hkeys⟩ := ih
    obtain rfl : (d.put s).2 = d' := congrArg Prod.snd pushed
    -- the keys of the texts before stay what they are
    have hbefore := hkeys.imp fun _ _ h t ht => (h t ht).put s
    refine ⟨_, hvs.pushText (congrArg Prod.fst pushed), List.rel_append hbefore (.cons ?_ .nil)⟩
    rintro _ ⟨⟩
    exact d.keys_put s
  | number _ pushed ih =>
    obtain ⟨vs, hvs, hkeys⟩ := ih
    exact ⟨_, hvs.push pushed, List.rel_append hkeys (.cons (fun _ ht => nomatch ht) .nil)⟩
  | put _ s ih =>
    obtain ⟨vs, hvs, hkeys⟩ := ih
    exact ⟨vs, hvs, hkeys.imp fun _ _ h t ht => (h t ht).put s⟩

end ColumnBuffer.Spells

namespace RowView

variable {v : RowView} {column : Nat} {s : String}

/-- A view reads the text of the key in the column. -/
lemma text_eq_of_keys {d : Dictionary} {x : Cell} (hd : v.dictionaries[column]?.join = some d)
    (hx : d.Keys s x) (hword : v.word column 4 = .ok x.word) (hlt : d.texts.idxOf s < 1 <<< 31) :
    v.text column = .ok (some s) := by
  obtain ⟨hs, rfl⟩ := hx
  have hkey : ∀ key : Int32, (UInt32.ofNat (Cell.int key).word).toInt32 = key :=
    fun key => by simp [Cell.word]
  rw [text_eq, hword, hd]
  show Except.ok (d.textOf? _) = _
  rw [hkey, Dictionary.textOf?_idxOf hs hlt]

/-- Without a dictionary there is no text. -/
lemma text_eq_none {n : Nat} (hd : v.dictionaries[column]?.join = none)
    (hword : v.word column 4 = .ok n) : v.text column = .ok none := by
  rw [text_eq, hword, hd]
  rfl

/-- The dictionary that a view has for a symbol column. -/
lemma dictionary_ofDirectory {d : Directory} (source : Dictionaries)
    (h : d.types[column]? = some .symbol) :
    (ofDirectory d source).dictionaries[column]?.join = source.lookup column := by
  rw [ofDirectory, Array.getElem?_mapIdx, h]
  rfl

end RowView

/-! ## Rows of frames -/

namespace Filled

variable {types : Array ColumnType} {rows index c : Nat} {buffers : List ColumnBuffer}
  {columns : List (List Cell)} {f : Frame} {v : RowView} {type : ColumnType}

/-- A view of a row of the frame reads the value that was pushed for that row. -/
lemma exists_cell (h : Filled types rows buffers columns) (hf : f.Covers index buffers)
    (hin : f.firstRow + f.rowCount ≤ rows) (htypes : v.directory.types = types)
    (hframe : v.directory.frames[v.frame]? = some f) (hrow : v.row < f.rowCount)
    (htype : types[c]? = some type) :
    ∃ vs x, columns[c]? = some vs ∧ vs[f.firstRow + v.row]? = some x ∧
      v.word c type.width = .ok x.word ∧ v.cell type.getter c = .ok x := by
  obtain ⟨b, vs, hb, hvs, hholds, rfl⟩ := h.column htype
  have hlt : f.firstRow + v.row < vs.length := by
    rw [h.length_column (List.mem_of_getElem? hvs)]
    omega
  have hx := List.getElem?_eq_getElem hlt
  have hword := h.word_eq hf htypes hframe hrow hb hholds hx
  exact ⟨vs, _, hvs, hx, hword,
    RowView.cell_eq (hholds.fits _ (List.mem_of_getElem? hx)) hword⟩

/-- It reads the text that was pushed for that row. -/
lemma text_eq (h : Filled types rows buffers columns) (hf : f.Covers index buffers)
    (htypes : v.directory.types = types) (hframe : v.directory.frames[v.frame]? = some f)
    (hrow : v.row < f.rowCount) {b : ColumnBuffer} {d : Dictionary} {ts : List (Option String)}
    {s : String} (hb : buffers[c]? = some b) (htype : types[c]? = some .symbol)
    (hspells : b.Spells d ts) (hs : ts[f.firstRow + v.row]? = some (some s))
    (hd : v.dictionaries[c]?.join = some d) (hlt : d.texts.idxOf s < 1 <<< 31) :
    v.text c = .ok (some s) := by
  obtain ⟨vs, hholds, hkeys⟩ := hspells.holds
  obtain ⟨x, hx, hkey⟩ := exists_getElem?_of_forall₂ hkeys hs
  have hword := h.word_eq hf htypes hframe hrow hb hholds hx
  obtain hsymbol : b.type = .symbol := Option.some.inj ((h.type_eq hb).symm.trans htype)
  rw [hsymbol] at hword
  exact RowView.text_eq_of_keys hd (hkey s rfl) hword hlt

end Filled

/-- The column that a frame has a window of. -/
def Frame.buffer? (f : Frame) (parts : List (List ColumnBuffer)) (column : Nat) :
    Option ColumnBuffer :=
  parts[f.partition]?.bind (·[column]?)

/-- What was pushed into a column of the partition of a frame for a row of the frame. -/
def Frame.pushed? (f : Frame) (tables : List (List (List Cell))) (column row : Nat) :
    Option Cell :=
  (tables[f.partition]?.bind (·[column]?)).bind (·[f.firstRow + row]?)

namespace Table

variable {schema : Schema} {settings : Settings} {t : Table} {parts : List (List ColumnBuffer)}
  {tables : List (List (List Cell))} {tiles : List (List Frame)} {f : Frame} {limit : Nat}

/-- A frame is cut from the partition whose index it has. -/
lemma Gathers.exists_part (h : t.Gathers schema settings parts)
    (hpushed : List.Forall₂ (List.Forall₂ ColumnBuffer.Holds) parts tables)
    (htiles : TilesEach limit parts tiles) (hf : f ∈ tiles.flatten) :
    ∃ part columns, parts[f.partition]? = some part ∧ tables[f.partition]? = some columns ∧
      Filled schema.types (rowCountOf part) part columns ∧ f.Covers f.partition part ∧
      f.firstRow + f.rowCount ≤ rowCountOf part := by
  obtain ⟨fs, hfs, hf⟩ := List.mem_flatten.1 hf
  obtain ⟨i, hi⟩ := List.mem_iff_getElem?.1 hfs
  obtain ⟨⟨part, j⟩, hp, htile⟩ := exists_getElem?_of_forall₂ (List.Forall₂.flip htiles) hi
  have hcovers := htile.covers f hf
  have hpart : parts[f.partition]? = some part :=
    hcovers.partition ▸ List.mem_zipIdx_iff_getElem?.1 (List.mem_of_getElem? hp)
  obtain ⟨columns, hcolumns, hfilled⟩ := h.filled hpushed hpart
  exact ⟨part, columns, hpart, hcolumns, hfilled, hcovers.partition ▸ hcovers, htile.inside hf⟩

/-- A directory takes the frames of a table. -/
lemma Gathers.fits (h : t.Gathers schema settings parts)
    (hpushed : List.Forall₂ (List.Forall₂ ColumnBuffer.Holds) parts tables)
    (htiles : TilesEach limit parts tiles) (hf : f ∈ tiles.flatten) :
    (Directory.ofSchema schema).fits f = true := by
  obtain ⟨part, columns, -, -, hfilled, hcovers, -⟩ := h.exists_part hpushed htiles hf
  have hsize : f.columns.size = schema.types.size := by
    rw [← Array.length_toList, ← hcovers.windows.length_eq, hfilled.length_buffers]
  exact beq_iff_eq.2 hsize

/-- A view of any row of any frame reads in each column the value that was pushed into the column
of that partition for that row.  In a symbol column it reads no text when the table has no
dictionary there; when it has one that is that of the texts in the column, as they were pushed or
after more texts came, it reads the text that was pushed, if the place of the text has 31 bits as
keys have. -/
theorem reads_what_was_pushed
    (hpushed : List.Forall₂ (List.Forall₂ ColumnBuffer.Holds) parts tables)
    (hmemory : ∀ part ∈ parts, ∀ b ∈ part, b.memory.size < 1 <<< 63)
    (haccepted : (ofSchema schema settings).appendAll parts = .ok t)
    (hword : settings.rowsPerFrame < 1 <<< 64) (source : Dictionaries) :
    ∃ fs d, t.frames = .ok fs ∧ fs.foldlM Directory.add (.ofSchema schema) = .ok d ∧
      ∀ (k : Nat) (f : Frame) (r : Nat), fs[k]? = some f → r < f.rowCount →
        ∀ (c : Nat) (type : ColumnType), schema.types[c]? = some type →
          (∃ x, f.pushed? tables c r = some x ∧
            (((RowView.ofDirectory d source).atFrame k).atRow r).cell type.getter c = .ok x) ∧
          (type = .symbol →
            (source.lookup c = none →
              (((RowView.ofDirectory d source).atFrame k).atRow r).text c = .ok none) ∧
            ∀ b dictionary ts s, f.buffer? parts c = some b → source.lookup c = some dictionary →
              b.Spells dictionary ts → ts[f.firstRow + r]? = some (some s) →
              dictionary.texts.idxOf s < 1 <<< 31 →
              (((RowView.ofDirectory d source).atFrame k).atRow r).text c = .ok (some s)) := by
  have h := gathers_of_appendAll haccepted
  obtain ⟨tiles, hframes, htiles⟩ := h.exists_tiles hpushed hmemory hword
  have hbuilt : tiles.flatten.foldlM Directory.add (.ofSchema schema) =
      .ok ⟨schema.types, tiles.flatten.toArray⟩ :=
    Directory.foldlM_add_eq_ok_iff.2 ⟨fun f hf => h.fits hpushed htiles hf,
      by rw [Directory.ofSchema, Array.empty_append]⟩
  refine ⟨tiles.flatten, _, hframes, hbuilt, ?_⟩
  intro k f r hk hr c type htype
  obtain ⟨part, columns, hpart, hcolumns, hfilled, hcovers, hin⟩ :=
    h.exists_part hpushed htiles (List.mem_of_getElem? hk)
  let v := ((RowView.ofDirectory ⟨schema.types, tiles.flatten.toArray⟩ source).atFrame k).atRow r
  have hframe : v.directory.frames[v.frame]? = some f := (List.getElem?_toArray ..).trans hk
  obtain ⟨vs, x, hvs, hx, hread, hcell⟩ := hfilled.exists_cell hcovers hin rfl hframe hr htype
  refine ⟨⟨x, ?_, hcell⟩, ?_⟩
  · rw [Frame.pushed?, hcolumns, Option.bind_some, hvs]
    exact hx
  · rintro rfl
    have hdictionary : v.dictionaries[c]?.join = source.lookup c :=
      RowView.dictionary_ofDirectory source htype
    refine ⟨fun hnone => RowView.text_eq_none (hdictionary.trans hnone) hread, ?_⟩
    intro b dictionary ts s hb hd hspells hs hlt
    rw [Frame.buffer?, hpart] at hb
    exact hfilled.text_eq hcovers rfl hframe hr hb htype hspells hs (hdictionary.trans hd) hlt

open Workshop

/-- The schema of whole numbers with a text each. -/
def labelled : Schema := { columns := #[⟨"v", .i64⟩, ⟨"s", .symbol⟩] }

/-- A symbol column that keys were pushed into. -/
def pushedKeys (keys : List Int32) : ColumnBuffer :=
  keys.foldl (fun c key =>
    { c with memory := Bytes.append c.memory (Cell.int key).bytes, rows := c.rows + 1 })
    { type := .symbol }

/-- A partition of two rows and one of a single row, with the keys of their texts. -/
def labelledParts : List (List ColumnBuffer) :=
  [[pushedLongs [7, -1], pushedKeys [0, 1]], [pushedLongs [3], pushedKeys [0]]]

/-- The table of these partitions with one row to a frame. -/
def labelledTable : Table :=
  { ofSchema labelled { frameRows := some 1 } with
    partitions := (labelledParts.map .ofColumns).toArray }

lemma holds_labelledParts : List.Forall₂ (List.Forall₂ ColumnBuffer.Holds) labelledParts
    [[[7, -1].map .long, [0, 1].map .int], [[3].map .long, [0].map .int]] :=
  .cons (.cons (holds_pushedLongs _) (.cons (.push (.push (.new .symbol) rfl) rfl) .nil))
    (.cons (.cons (holds_pushedLongs _) (.cons (.push (.new .symbol) rfl) .nil)) .nil)

/-- The texts of the first partition, in a dictionary that a third text has come to since. -/
lemma spells_pushedKeys :
    (pushedKeys [0, 1]).Spells (.putAll {} ["a", "b", "c"]) [some "a", some "b"] := by
  have ha : ({} : Dictionary).put "a" = (0, ⟨#["a"]⟩) := by decide +kernel
  have hb : (⟨#["a"]⟩ : Dictionary).put "b" = (1, ⟨#["a", "b"]⟩) := by decide +kernel
  have hc : (Dictionary.putAll {} ["a", "b", "c"]) = (Dictionary.mk #["a", "b"]).putAll ["c"] := by
    decide +kernel
  have hfirst : (pushedKeys [0]).Spells ⟨#["a"]⟩ [some "a"] :=
    .text (.new .symbol {}) (by rw [ColumnBuffer.pushText, ha]; rfl)
  have hboth : (pushedKeys [0, 1]).Spells ⟨#["a", "b"]⟩ [some "a", some "b"] :=
    .text hfirst (by rw [ColumnBuffer.pushText, hb]; rfl)
  exact hc ▸ hboth.putAll ["c"]

/-- The second frame has the second row, with the second text. -/
theorem reads_second_row :
    ∃ fs d, labelledTable.frames = .ok fs ∧ fs.foldlM Directory.add (.ofSchema labelled) = .ok d ∧
      ((RowView.ofDirectory d (.attach {} 1 (.putAll {} ["a", "b", "c"]))).atFrame 1).cell .long 0 =
        .ok (.long (-1)) ∧
      ((RowView.ofDirectory d (.attach {} 1 (.putAll {} ["a", "b", "c"]))).atFrame 1).text 1 =
        .ok (some "b") := by
  have haccepted : (ofSchema labelled { frameRows := some 1 }).appendAll labelledParts =
      .ok labelledTable :=
    appendAll_eq_ok_iff.2 ⟨by decide +kernel, by rw [labelledTable, ofSchema, Array.empty_append]⟩
  obtain ⟨fs, d, hframes, hbuilt, hreads⟩ := reads_what_was_pushed holds_labelledParts
    (by decide +kernel) haccepted (by decide) (.attach {} 1 (.putAll {} ["a", "b", "c"]))
  have hshape : labelledTable.frames.map (List.map fun f => (f.partition, f.range)) =
    .ok [(0, 0, 1), (0, 1, 1), (1, 0, 1)] := by decide +kernel
  rw [hframes] at hshape
  have hsecond : (fs.map fun f => (f.partition, f.range))[1]? = some (0, 1, 1) := by
    rw [Except.ok.inj hshape]
    rfl
  rw [List.getElem?_map] at hsecond
  obtain ⟨⟨index, first, count, windows⟩, hf, hplace⟩ := Option.map_eq_some_iff.1 hsecond
  obtain ⟨rfl, rfl, rfl⟩ : index = 0 ∧ first = 1 ∧ count = 1 := by
    simpa [Frame.range] using hplace
  refine ⟨fs, d, hframes, hbuilt, ?_, ?_⟩
  · obtain ⟨⟨x, hx, hcell⟩, -⟩ := hreads 1 _ 0 hf Nat.one_pos 0 .i64 (by decide +kernel)
    obtain rfl : _ = x := Option.some.inj hx
    exact hcell
  · obtain ⟨-, htext⟩ := hreads 1 _ 0 hf Nat.one_pos 1 .symbol (by decide +kernel)
    exact (htext rfl).2 _ _ _ _ rfl rfl spells_pushedKeys rfl (by decide +kernel)

/-- A text of two characters that stands for a number. -/
def numeral (n : Nat) : String := .ofList [.ofNat (n / 50000), .ofNat (n % 50000)]

lemma numeral_inj {m n : Nat} (hm : m ≤ 1 <<< 31) (hn : n ≤ 1 <<< 31)
    (h : numeral m = numeral n) : m = n := by
  have hcode : ∀ a < 50000, (Char.ofNat a).toNat = a := fun a ha => by
    rw [Char.ofNat, dif_pos (.inl (by omega))]
    rfl
  have hchar : ∀ {a b : Nat}, a < 50000 → b < 50000 → Char.ofNat a = Char.ofNat b → a = b :=
    fun ha hb h => by rw [← hcode _ ha, h, hcode _ hb]
  obtain ⟨hhigh, hrest⟩ := List.cons.inj (String.ofList_injective h)
  have hdiv := hchar (by omega) (by omega) hhigh
  have hmod := hchar (Nat.mod_lt _ (by decide)) (Nat.mod_lt _ (by decide)) (List.cons.inj hrest).1
  omega

/-- As many texts as there are keys that are not negative. -/
def crowded : Dictionary := .putAll {} ((List.range (1 <<< 31)).map numeral)

lemma size_crowded : crowded.size = 1 <<< 31 := by
  have hnodup : ((List.range (1 <<< 31)).map numeral).Nodup :=
    List.nodup_range.map_on fun m hm n hn h => numeral_inj (Nat.le_of_lt (List.mem_range.1 hm))
      (Nat.le_of_lt (List.mem_range.1 hn)) h
  rw [crowded, Dictionary.size_putAll, List.toFinset_card_of_nodup hnodup, List.length_map,
    List.length_range]

/-- The key of the next text wraps around. -/
lemma put_crowded : crowded.put (numeral (1 <<< 31)) =
    (.ofNat (1 <<< 31), ⟨crowded.texts.push (numeral (1 <<< 31))⟩) := by
  have hnew : numeral (1 <<< 31) ∉ crowded.texts := by
    rw [crowded, ← Array.mem_toList_iff, Dictionary.toList_putAll, List.mem_eraseDups,
      List.mem_map]
    rintro ⟨n, hn, h⟩
    have hlt := List.mem_range.1 hn
    exact absurd (numeral_inj (Nat.le_of_lt hlt) (Nat.le_refl _) h) (Nat.ne_of_lt hlt)
  rw [Dictionary.put_of_not_mem hnew, size_crowded]

/-- The schema of a single column of texts. -/
def named : Schema := { columns := #[⟨"s", .symbol⟩] }

/-- The table of a single text whose key has wrapped around. -/
def namedTable : Table :=
  { ofSchema named {} with partitions := #[.ofColumns [pushedKeys [.ofNat (1 <<< 31)]]] }

/-- Past `2 ^ 31` texts there are no keys any more.  A text that comes then enters the dictionary,
but where it was pushed there is no text to be read. -/
theorem reads_no_text :
    ∃ b d t fs directory,
      ({ type := .symbol } : ColumnBuffer).pushText crowded (numeral (1 <<< 31)) = (.ok b, d) ∧
      numeral (1 <<< 31) ∈ d.texts ∧ (ofSchema named {}).appendAll [[b]] = .ok t ∧
      t.frames = .ok fs ∧ fs.map (fun f => (f.partition, f.range)) = [(0, 0, 1)] ∧
      fs.foldlM Directory.add (.ofSchema named) = .ok directory ∧
      ((RowView.ofDirectory directory (.attach {} 0 d)).atFrame 0).text 0 = .ok none := by
  have haccepted : (ofSchema named {}).appendAll [[pushedKeys [.ofNat (1 <<< 31)]]] =
      .ok namedTable :=
    appendAll_eq_ok_iff.2 ⟨by decide +kernel, by rw [namedTable, ofSchema, Array.empty_append]; rfl⟩
  have hshape : namedTable.frames.map (List.map fun f => (f.partition, f.range)) =
    .ok [(0, 0, 1)] := by decide +kernel
  have hread : (namedTable.frames.bind fun fs =>
      (fs.foldlM Directory.add (.ofSchema named)).bind fun directory =>
        ((RowView.ofDirectory directory {}).atFrame 0).word 0 4) = .ok (1 <<< 31) := by
    decide +kernel
  rcases hframes : namedTable.frames with fault | fs <;> rw [hframes] at hshape hread
  · cases hshape
  rcases hbuilt : fs.foldlM Directory.add (.ofSchema named) with fault | directory <;>
    simp only [Except.bind, hbuilt] at hread
  · cases hread
  refine ⟨_, _, namedTable, fs, directory, by rw [ColumnBuffer.pushText, put_crowded]; rfl,
    Array.mem_push_self, haccepted, hframes, Except.ok.inj hshape, hbuilt, ?_⟩
  -- the key is negative, so that no dictionary has a text for it
  have hword : ∀ source, ((RowView.ofDirectory directory source).atFrame 0).word 0 4 =
      .ok (1 <<< 31) := fun _ => hread
  have hnone : ∀ d : Dictionary, d.textOf? (UInt32.ofNat (1 <<< 31)).toInt32 = none :=
    fun d => if_neg (by decide)
  rw [RowView.text_eq, hword]
  refine congrArg Except.ok (Option.bind_eq_none_iff.2 fun d _ => hnone d)

end Table

end TableScan
