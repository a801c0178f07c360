import Mathlib.Data.List.Basic
import TableScan.ColumnBuffer

/-!
# Columns

What is pushed into a column can be read back.  Main statement: in the memory of a column the word
of each value stands where its row is (`ColumnBuffer.Holds.load`), and the value is what the getter
of the column's type makes of that word (`ColumnType.decode_word`).
-/

namespace TableScan

/-! ## Bytes in memory -/

namespace Bytes

lemma toList_append (memory : ByteArray) (bytes : List UInt8) :
    (append memory bytes).data.toList = memory.data.toList ++ bytes := by
  induction bytes generalizing memory with
  | nil => simp [append]
  | cons b bs ih =>
    have h : append memory (b :: bs) = append (memory.push b) bs := rfl
    rw [h, ih, ByteArray.data_push, Array.toList_push, List.append_assoc]
    rfl

lemma getElem?_eq (memory : ByteArray) (i : Nat) : memory[i]? = memory.data.toList[i]? := by
  by_cases h : i < memory.size
  · rw [getElem?_pos memory i h, List.getElem?_eq_getElem (by simpa using h)]
    simp [ByteArray.getElem_eq_getElem_data]
  · rw [getElem?_neg memory i h, List.getElem?_eq_none (by simpa using h)]

/-- A word that is read inside a memory is that of the bytes there. -/
lemma load_eq_decode {memory : ByteArray} {offset width : Nat}
    (h : offset + width ≤ memory.size) :
    load memory offset width = decode ((memory.data.toList.drop offset).take width) := by
  induction width generalizing offset with
  | zero => simp [load, decode]
  | succ width ih =>
    have hlt : offset < memory.data.toList.length := by
      show offset < memory.size
      omega
    rw [List.drop_eq_getElem_cons hlt, List.take_succ_cons, load, decode, ih (by omega),
      getElem?_eq, List.getElem?_eq_getElem hlt, Option.getD_some]

end Bytes

/-! ## Values and their words -/

lemma Cell.word_lt (v : Cell) : v.word < 1 <<< (8 * v.width) := by
  cases v with
  | bool b => cases b <;> decide
  | byte v => exact v.toUInt8.toNat_lt
  | short v => exact v.toUInt16.toNat_lt
  | int v => exact v.toUInt32.toNat_lt
  | long v => exact v.toUInt64.toNat_lt
  | float v => exact v.bits.toNat_lt
  | double v => exact v.bits.toNat_lt

lemma Cell.length_bytes (v : Cell) : v.bytes.length = v.width := Bytes.length_encode ..

lemma Cell.decode_bytes (v : Cell) : Bytes.decode v.bytes = v.word := by
  rw [bytes, Bytes.decode_encode, Nat.mod_eq_of_lt v.word_lt]

namespace ColumnType

/-- The getter that reads the values of a column as they were pushed. -/
def getter : ColumnType → Getter
  | bool => .bool
  | i8 => .byte
  | i16 => .short
  | i32 | symbol => .int
  | i64 => .long
  | timestamp => .timestamp
  | f32 => .float
  | f64 => .double

lemma width_getter (t : ColumnType) : t.getter.width = t.width := by cases t <;> rfl

/-- The getter of a column's type gives back the value that was pushed. -/
lemma decode_word {t : ColumnType} {v : Cell} (h : v.fits t = true) :
    t.getter.decode v.word = v := by
  cases v with
  | bool b =>
    obtain rfl : t = bool := by simpa [Cell.fits] using h
    cases b <;> rfl
  | byte v =>
    obtain rfl : t = i8 := by simpa [Cell.fits] using h
    simp [getter, Getter.decode, Cell.word]
  | short v =>
    obtain rfl : t = i16 := by simpa [Cell.fits] using h
    simp [getter, Getter.decode, Cell.word]
  | int v =>
    obtain rfl | rfl : t = i32 ∨ t = symbol := by simpa [Cell.fits] using h
    all_goals simp [getter, Getter.decode, Cell.word]
  | long v =>
    obtain rfl | rfl : t = i64 ∨ t = timestamp := by simpa [Cell.fits] using h
    all_goals simp [getter, Getter.decode, Cell.word]
  | float v =>
    obtain rfl : t = f32 := by simpa [Cell.fits] using h
    simp [getter, Getter.decode, Cell.word]
  | double v =>
    obtain rfl : t = f64 := by simpa [Cell.fits] using h
    simp [getter, Getter.decode, Cell.word]

end ColumnType

/-! ## Columns that were filled -/

/-- Blocks of equal length: what is left after some of them. -/
lemma drop_flatMap_of_length {α β : Type} {f : α → List β} {width : Nat} {l : List α}
    (h : ∀ a ∈ l, (f a).length = width) (i : Nat) :
    (l.flatMap f).drop (i * width) = (l.drop i).flatMap f := by
  induction i generalizing l with
  | zero => simp
  | succ i ih =>
    cases l with
    | nil => simp
    | cons a l =>
      have ha := h a List.mem_cons_self
      rw [List.flatMap_cons, Nat.succ_mul, Nat.add_comm, ← List.drop_drop, List.drop_left' ha,
        ih fun b hb => h b (List.mem_cons_of_mem _ hb), List.drop_succ_cons]

namespace ColumnBuffer

/-- A column that these values were pushed into, in this order. -/
inductive Holds : ColumnBuffer → List Cell → Prop
  | new (type : ColumnType) : Holds { type } []
  | push {c c' : ColumnBuffer} {vs : List Cell} {v : Cell} (holds : c.Holds vs)
      (pushed : c.push v = .ok c') : c'.Holds (vs ++ [v])

/-- A text is pushed by its key. -/
lemma Holds.pushText {c c' : ColumnBuffer} {vs : List Cell} {d : Dictionary} {text : String}
    (h : c.Holds vs) (hp : (c.pushText d text).1 = .ok c') :
    c'.Holds (vs ++ [.int (d.put text).1]) :=
  h.push hp

namespace Holds

variable {c : ColumnBuffer} {vs : List Cell}

lemma rows_eq (h : c.Holds vs) : c.rows = vs.length := by
  induction h with
  | new type => rfl
  | push _ pushed ih =>
    obtain ⟨-, rfl⟩ := push_eq_ok_iff.1 pushed
    simpa using ih

lemma fits (h : c.Holds vs) : ∀ v ∈ vs, v.fits c.type = true := by
  induction h with
  | new type => exact fun v hv => absurd hv List.not_mem_nil
  | push _ pushed ih =>
    obtain ⟨hv, rfl⟩ := push_eq_ok_iff.1 pushed
    intro w hw
    rcases List.mem_append.1 hw with hw | hw
    · exact ih w hw
    · obtain rfl := List.mem_singleton.1 hw
      exact hv

lemma memory_eq (h : c.Holds vs) : c.memory.data.toList = vs.flatMap Cell.bytes := by
  induction h with
  | new type => rfl
  | push _ pushed ih =>
    obtain ⟨-, rfl⟩ := push_eq_ok_iff.1 pushed
    rw [Bytes.toList_append, ih, List.flatMap_append, List.flatMap_singleton]

/-- A column holds its values and nothing else. -/
lemma full (h : c.Holds vs) : c.Full := by
  induction h with
  | new type => exact (Nat.zero_mul _).symm
  | push _ pushed ih => exact ih.push pushed

/-- The word of a value stands where its row is. -/
lemma load (h : c.Holds vs) {i : Nat} {v : Cell} (hi : vs[i]? = some v) :
    Bytes.load c.memory (i * c.type.width) c.type.width = v.word := by
  obtain ⟨hlt, rfl⟩ := List.getElem?_eq_some_iff.1 hi
  have hwidth : ∀ v ∈ vs, v.bytes.length = c.type.width := fun v hv =>
    v.length_bytes.trans (Cell.width_eq_of_fits (h.fits v hv))
  have hin : i * c.type.width + c.type.width ≤ c.memory.size := by
    rw [h.full, h.rows_eq, ← Nat.succ_mul]
    exact Nat.mul_le_mul_right _ hlt
  have hmem := hwidth _ (List.getElem_mem hlt)
  rw [Bytes.load_eq_decode hin, h.memory_eq, drop_flatMap_of_length hwidth,
    List.drop_eq_getElem_cons hlt, List.flatMap_cons, List.take_left' hmem, Cell.decode_bytes]

end Holds

end ColumnBuffer

end TableScan
