/-!
# Row ids

The address of a row within one scan, packed into one word.  Main statements: the two fields
survive packing up to their widths (`frame_pack`, `row_pack`), and every word is the packing of
its fields (`pack_frame_row`).
-/

namespace TableScan

/-- A row address in one word: the frame index in the high 20 bits, the local row in the low
44. -/
structure RowId where
  word : UInt64
deriving DecidableEq, Repr

namespace RowId

/-- The largest frame index that a row id holds. -/
def maxFrame : Nat := 1 <<< 20 - 1

/-- The largest local row that a row id holds. -/
def maxRow : Nat := 1 <<< 44 - 1

/-- The id of a row of a frame.  Either part is cut to its field. -/
def pack (frame row : Nat) : RowId :=
  ⟨UInt64.ofNat ((frame % 1 <<< 20) <<< 44 + row % 1 <<< 44)⟩

/-- The frame index in the id. -/
def frame (i : RowId) : Nat := i.word.toNat >>> 44

/-- The local row in the id. -/
def row (i : RowId) : Nat := i.word.toNat % 1 <<< 44

theorem toNat_pack (f r : Nat) :
    (pack f r).word.toNat = (f % 1 <<< 20) <<< 44 + r % 1 <<< 44 := by
  simp only [pack, UInt64.toNat_ofNat', Nat.shiftLeft_eq, Nat.one_mul]
  omega

theorem frame_pack (f r : Nat) : (pack f r).frame = f % 1 <<< 20 := by
  simp only [frame, toNat_pack, Nat.shiftLeft_eq, Nat.shiftRight_eq_div_pow, Nat.one_mul]
  omega

theorem row_pack (f r : Nat) : (pack f r).row = r % 1 <<< 44 := by
  simp only [row, toNat_pack, Nat.shiftLeft_eq, Nat.one_mul]
  omega

theorem pack_frame_row (i : RowId) : pack i.frame i.row = i := by
  obtain ⟨w⟩ := i
  have h := w.toNat_lt
  have hw : (w.toNat >>> 44 % 1 <<< 20) <<< 44 + w.toNat % 1 <<< 44 % 1 <<< 44 = w.toNat := by
    simp only [Nat.shiftLeft_eq, Nat.shiftRight_eq_div_pow, Nat.one_mul]
    omega
  simp only [pack, frame, row, hw, UInt64.ofNat_toNat]

end RowId

end TableScan
