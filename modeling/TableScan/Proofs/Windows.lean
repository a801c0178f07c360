import Mathlib.Data.List.Basic
import TableScan.Proofs.Columns
import TableScan.RowView

/-!
# Windows

A view reads its row in the window of its own frame.  Main statement: a read is answered exactly
when the row lies in that window, and then the answer is made of the bytes of the row there; every
other read is faulted (`RowView.reads_own_window`).
-/

namespace TableScan

/-! ## Bytes of a window -/

namespace Window

/-- The bytes of a window from an offset on. -/
def slice (w : Window) (offset width : Nat) : List UInt8 :=
  (w.bytes.data.toList.drop offset).take width

lemma toList_bytes (w : Window) :
    w.bytes.data.toList = (w.memory.data.toList.drop w.offset).take w.length := by
  rw [bytes, ByteArray.data_extract, Array.toList_extract, List.extract_eq_take_drop,
    Nat.add_sub_cancel_left]

variable {w : Window} {offset width : Nat}

/-- A word that is read inside of a window is made of bytes of the window. -/
lemma load_eq_decode_slice (h : offset + width ≤ w.length) :
    Bytes.load w.memory (w.offset + offset) width = Bytes.decode (w.slice offset width) := by
  have hin : w.offset + offset + width ≤ w.memory.size := by
    have := w.inside
    omega
  have htake : min width (w.length - offset) = width := by omega
  rw [Bytes.load_eq_decode hin, slice, toList_bytes, List.drop_take, List.take_take, htake,
    List.drop_drop]

end Window

/-! ## Directories of any frames -/

lemma map_eq_ok_iff {α β : Type} {f : α → β} {x : Except Fault α} {b : β} :
    f <$> x = .ok b ↔ ∃ a, x = .ok a ∧ b = f a := by
  cases x with
  | error fault =>
    constructor
    · intro h
      cases h
    · rintro ⟨a, ha, -⟩
      cases ha
  | ok a =>
    constructor
    · intro h
      exact ⟨a, rfl, (Except.ok.inj h).symm⟩
    · rintro ⟨a', ha, rfl⟩
      obtain rfl := Except.ok.inj ha
      rfl

namespace Directory

/-- A directory takes frames, one after the other, if each has the columns of its schema. -/
lemma foldlM_add_eq_ok_iff {d d' : Directory} {frames : List Frame} :
    frames.foldlM add d = .ok d' ↔
      (∀ f ∈ frames, d.fits f = true) ∧ d' = { d with frames := d.frames ++ frames.toArray } := by
  induction frames generalizing d with
  | nil =>
    have hnone : ({ d with frames := d.frames ++ [].toArray } : Directory) = d := by
      rw [Array.append_empty]
    rw [hnone]
    constructor
    · intro h
      exact ⟨fun f hf => absurd hf List.not_mem_nil, (Except.ok.inj h).symm⟩
    · rintro ⟨-, rfl⟩
      rfl
  | cons f frames ih =>
    cases hf : d.fits f with
    | false => simp [add, hf, bind, Except.bind]
    | true =>
      have hadd : d.add f = .ok { d with frames := d.frames.push f } := if_pos hf
      have hfits : ∀ g, fits { d with frames := d.frames.push f } g = d.fits g := fun _ => rfl
      rw [List.foldlM_cons, hadd]
      show frames.foldlM add _ = .ok d' ↔ _
      rw [ih]
      simp [hfits, hf]

end Directory

namespace RowView

variable {schema : Schema} {frames : List Frame} {v : RowView} {column width : Nat} {w : Window}

/-- The row of a view lies in this window, that of its own frame in a column whose values have
`width` bytes. -/
structure LiesIn (v : RowView) (schema : Schema) (frames : List Frame) (column width : Nat)
    (w : Window) : Prop where
  width_eq : schema.types[column]?.map ColumnType.width = some width
  window : frames[v.frame]?.bind (·.columns[column]?) = some w
  inside : v.row * width + width ≤ w.length

/-- The row ends inside of a word. -/
lemma LiesIn.word (h : v.LiesIn schema frames column width w) :
    v.row * width + width < 1 <<< 64 := by
  have hinside := h.inside
  have hword := w.word
  omega

/-- A view of a directory has a word in a column exactly when its row lies in the window there. -/
lemma word_eq_ok_iff_liesIn
    (hbuilt : frames.foldlM Directory.add (.ofSchema schema) = .ok v.directory) {n : Nat} :
    v.word column width = .ok n ↔ ∃ w, v.LiesIn schema frames column width w ∧
      n = Bytes.decode (w.slice (v.row * width) width) := by
  obtain ⟨-, hd⟩ := Directory.foldlM_add_eq_ok_iff.1 hbuilt
  have htypes : v.directory.types = schema.types := congrArg Directory.types hd
  have hframes : v.directory.frames = frames.toArray := by
    rw [hd]
    exact Array.empty_append
  rw [word_eq_ok_iff, htypes, hframes]
  constructor
  · rintro ⟨type, f, w, htype, hwidth, hf, hw, hin, rfl⟩
    refine ⟨w, ⟨?_, ?_, hin⟩, Window.load_eq_decode_slice hin⟩
    · rw [htype, Option.map_some, hwidth]
    · rw [List.getElem?_toArray] at hf
      rw [hf, Option.bind_some, hw]
  · rintro ⟨w, h, rfl⟩
    obtain ⟨type, htype, hwidth⟩ := Option.map_eq_some_iff.1 h.width_eq
    obtain ⟨f, hf, hw⟩ := Option.bind_eq_some_iff.1 h.window
    exact ⟨type, f, w, htype, hwidth, by rwa [List.getElem?_toArray], hw, h.inside,
      (Window.load_eq_decode_slice h.inside).symm⟩

/-- A text is looked up by the number in the column. -/
lemma text_eq : v.text column =
    (fun n => v.dictionaries[column]?.join.bind (·.textOf? (UInt32.ofNat n).toInt32)) <$>
      v.word column 4 := by
  rw [text, cell, Getter.width]
  cases v.word column 4 <;> rfl

/-- Something that is made of the word in a column is there exactly when the row lies in the
window. -/
lemma map_word_eq_ok_iff
    (hbuilt : frames.foldlM Directory.add (.ofSchema schema) = .ok v.directory) {α : Type}
    {f : Nat → α} {a : α} : f <$> v.word column width = .ok a ↔
      ∃ w, v.LiesIn schema frames column width w ∧
        a = f (Bytes.decode (w.slice (v.row * width) width)) := by
  rw [map_eq_ok_iff]
  constructor
  · rintro ⟨n, hn, rfl⟩
    obtain ⟨w, hw, rfl⟩ := (word_eq_ok_iff_liesIn hbuilt).1 hn
    exact ⟨w, hw, rfl⟩
  · rintro ⟨w, hw, rfl⟩
    exact ⟨_, (word_eq_ok_iff_liesIn hbuilt).2 ⟨w, hw, rfl⟩, rfl⟩

/-- It is faulted exactly when there is no such window. -/
lemma map_word_faulted_iff
    (hbuilt : frames.foldlM Directory.add (.ofSchema schema) = .ok v.directory) {α : Type}
    {f : Nat → α} : (∃ fault, f <$> v.word column width = .error fault) ↔
      ¬ ∃ w, v.LiesIn schema frames column width w := by
  constructor
  · rintro ⟨fault, hfault⟩ ⟨w, hw⟩
    have hok := (map_word_eq_ok_iff (f := f) hbuilt).2 ⟨w, hw, rfl⟩
    rw [hfault] at hok
    cases hok
  · intro hnone
    cases hword : v.word column width with
    | error fault => exact ⟨fault, rfl⟩
    | ok n =>
      obtain ⟨w, hw, -⟩ := (word_eq_ok_iff_liesIn hbuilt).1 hword
      exact absurd ⟨w, hw⟩ hnone

/-- A value or a text is read exactly when the row of the view lies in the window of its own frame,
and then it is made of the bytes of the row there, the lowest first.  Every other read is faulted;
in particular one of a row that would not end inside of a word.  What other frames have in the same
memory is never read. -/
theorem reads_own_window
    (hbuilt : frames.foldlM Directory.add (.ofSchema schema) = .ok v.directory)
    (getter : Getter) (column : Nat) :
    (∀ x, v.cell getter column = .ok x ↔ ∃ w, v.LiesIn schema frames column getter.width w ∧
      x = getter.decode (Bytes.decode (w.slice (v.row * getter.width) getter.width))) ∧
    ((∃ fault, v.cell getter column = .error fault) ↔
      ¬ ∃ w, v.LiesIn schema frames column getter.width w) ∧
    (∀ t, v.text column = .ok t ↔ ∃ w, v.LiesIn schema frames column 4 w ∧
      t = v.dictionaries[column]?.join.bind
        (·.textOf? (UInt32.ofNat (Bytes.decode (w.slice (v.row * 4) 4))).toInt32)) ∧
    ((∃ fault, v.text column = .error fault) ↔ ¬ ∃ w, v.LiesIn schema frames column 4 w) ∧
    (1 <<< 64 ≤ v.row * getter.width + getter.width →
      ∃ fault, v.cell getter column = .error fault) := by
  refine ⟨fun x => map_word_eq_ok_iff hbuilt, map_word_faulted_iff hbuilt, fun t => ?_, ?_, ?_⟩
  · rw [text_eq]
    exact map_word_eq_ok_iff hbuilt
  · rw [text_eq]
    exact map_word_faulted_iff hbuilt
  · intro hlong
    refine (map_word_faulted_iff hbuilt).2 ?_
    rintro ⟨w, hw⟩
    exact absurd hw.word (Nat.not_lt_of_le hlong)

/-- Two whole numbers in one memory, with a frame for each of them. -/
def pairOfRows : List Frame :=
  let memory : ByteArray := ⟨#[7, 0, 0, 0, 0, 0, 0, 0, 9, 0, 0, 0, 0, 0, 0, 0]⟩
  [⟨0, 0, 1, #[⟨memory, 0, 8, by decide, by decide⟩]⟩,
    ⟨0, 1, 1, #[⟨memory, 8, 8, by decide, by decide⟩]⟩]

/-- A view of the first frame reads the first number in row 0 and nothing in row 1, where the
memory goes on with the second number, nor in the row whose offset a word would take for 0. -/
theorem neighbour_not_read :
    ∃ d : Directory, pairOfRows.foldlM Directory.add (.ofSchema ⟨#[⟨"v", .i64⟩]⟩) = .ok d ∧
      ({ directory := d } : RowView).cell .long 0 = .ok (.long 7) ∧
      (∃ fault, ({ directory := d, row := 1 } : RowView).cell .long 0 = .error fault) ∧
      (∃ fault, ({ directory := d, row := 1 <<< 61 } : RowView).cell .long 0 = .error fault) ∧
      ({ directory := d, frame := 1 } : RowView).cell .long 0 = .ok (.long 9) := by
  have hbuilt : pairOfRows.foldlM Directory.add (.ofSchema ⟨#[⟨"v", .i64⟩]⟩) = .ok _ :=
    Directory.foldlM_add_eq_ok_iff.2 ⟨by decide +kernel, rfl⟩
  refine ⟨_, hbuilt, ?_, ?_, ?_, ?_⟩
  · exact ((reads_own_window hbuilt .long 0).1 _).2
      ⟨_, ⟨by decide +kernel, rfl, by decide⟩, by decide⟩
  · refine (reads_own_window hbuilt .long 0).2.1.2 ?_
    rintro ⟨w, -, hw, hin⟩
    obtain rfl := Option.some.inj hw
    exact absurd hin (by decide)
  · exact (reads_own_window hbuilt .long 0).2.2.2.2 (by decide)
  · exact ((reads_own_window hbuilt .long 0).1 _).2
      ⟨_, ⟨by decide +kernel, rfl, by decide⟩, by decide⟩

end RowView

end TableScan
