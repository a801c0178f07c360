import Mathlib.Data.Prod.Lex
import TableScan.RowId

/-!
# The order of row ids

Row ids as addresses: they are compared as the pairs that they pack.  Main statement: packing cuts
each part to its field, every word is the packing of its fields, and the words of pairs that fit
their fields come in the lexicographic order of the pairs (`RowId.pack_lexicographic`).
-/

namespace TableScan.RowId

variable {i j : RowId}

/-! ## Fields of words -/

/-- Masking a word keeps the lowest bits of the number. -/
lemma toNat_mask (n : Nat) {width : Nat} (h : width ≤ 64) :
    (UInt64.ofNat n &&& UInt64.ofNat (1 <<< width - 1)).toNat = n % 1 <<< width := by
  have hdvd : 2 ^ width ∣ 2 ^ 64 := Nat.pow_dvd_pow 2 h
  have hmask : 2 ^ width - 1 < 2 ^ 64 := by
    have := Nat.le_of_dvd (by decide) hdvd
    omega
  rw [UInt64.toNat_and, UInt64.toNat_ofNat', UInt64.toNat_ofNat', Nat.one_shiftLeft,
    Nat.mod_eq_of_lt hmask, Nat.and_two_pow_sub_one_eq_mod, Nat.mod_mod_of_dvd _ hdvd]

/-- Either part is masked to its field, and the frame is shifted above the row. -/
lemma word_pack (f r : Nat) :
    (pack f r).word = (UInt64.ofNat f &&& UInt64.ofNat maxFrame) <<< 44 |||
      (UInt64.ofNat r &&& UInt64.ofNat maxRow) := by
  have hf := toNat_mask f (by decide : 20 ≤ 64)
  have hr := toNat_mask r (by decide : 44 ≤ 64)
  have hrow : r % 1 <<< 44 < 2 ^ 44 := Nat.mod_lt _ (by decide)
  have hshift : (44 : UInt64).toNat % 64 = 44 := rfl
  -- the shifted frame has no bits past the word
  have hframe : (f % 1 <<< 20) <<< 44 < 2 ^ 64 := by
    have hlt : f % 1 <<< 20 < 2 ^ 20 := Nat.mod_lt _ (by decide)
    rw [Nat.shiftLeft_eq]
    omega
  rw [← UInt64.toNat_inj, toNat_pack, UInt64.toNat_or, UInt64.toNat_shiftLeft, maxFrame, maxRow,
    hf, hr, hshift, Nat.mod_eq_of_lt hframe, Nat.shiftLeft_add_eq_or_of_lt hrow]

/-! ## Order -/

lemma toNat_word (i : RowId) : i.word.toNat = i.frame * 1 <<< 44 + i.row := by
  rw [frame, row, Nat.shiftRight_eq_div_pow, Nat.one_shiftLeft, Nat.div_add_mod']

lemma row_lt (i : RowId) : i.row < 1 <<< 44 := Nat.mod_lt _ (by decide)

/-- Ids are compared by their frames first, and by their rows within one frame. -/
lemma word_lt_iff :
    i.word < j.word ↔ i.frame < j.frame ∨ i.frame = j.frame ∧ i.row < j.row := by
  have hi := i.row_lt
  have hj := j.row_lt
  rw [UInt64.lt_iff_toNat_lt, toNat_word, toNat_word]
  simp only [Nat.one_shiftLeft] at hi hj ⊢
  omega

/-- An id is made of its parts by masks and a shift.  From it each part is read back, cut to its
field, and every id is made of the parts that are read from it.  Pairs that fit the fields are in
lexicographic order as their ids are. -/
theorem pack_lexicographic :
    (∀ f r, (pack f r).word = (UInt64.ofNat f &&& UInt64.ofNat maxFrame) <<< 44 |||
      (UInt64.ofNat r &&& UInt64.ofNat maxRow)) ∧
    (∀ f r, (pack f r).frame = f % 1 <<< 20 ∧ (pack f r).row = r % 1 <<< 44) ∧
    (∀ i : RowId, pack i.frame i.row = i) ∧
    ∀ p q : Fin (1 <<< 20) × Fin (1 <<< 44),
      (pack p.1 p.2).word < (pack q.1 q.2).word ↔ toLex p < toLex q := by
  refine ⟨word_pack, fun f r => ⟨frame_pack f r, row_pack f r⟩, pack_frame_row, ?_⟩
  rintro ⟨f, r⟩ ⟨g, s⟩
  rw [word_lt_iff, Prod.Lex.toLex_lt_toLex]
  simp only [frame_pack, row_pack, Nat.mod_eq_of_lt f.isLt, Nat.mod_eq_of_lt g.isLt,
    Nat.mod_eq_of_lt r.isLt, Nat.mod_eq_of_lt s.isLt, Fin.lt_def, Fin.ext_iff]

/-- The last row of a frame comes before the first row of the next one. -/
example : (pack 0 maxRow).word < (pack 1 0).word := by decide

/-- A row past its field does not reach the frame. -/
example : (pack 1 (maxRow + 1)).frame = 1 ∧ (pack 1 (maxRow + 1)).row = 0 := by decide

end TableScan.RowId
