/-!
# Little-endian words

A number as bytes, lowest first, and back.  Main statement: reading what was written gives the
number up to the width (`decode_encode`).
-/

namespace TableScan.Bytes

/-- The lowest `width` bytes of a number, lowest first. -/
def encode : Nat → Nat → List UInt8
  | 0, _ => []
  | width + 1, n => UInt8.ofNat n :: encode width (n / 256)

/-- The number with these bytes, lowest first. -/
def decode : List UInt8 → Nat
  | [] => 0
  | b :: bs => b.toNat + 256 * decode bs

/-- The number held by `width` bytes of memory from an offset on. -/
def load (memory : ByteArray) (offset : Nat) : Nat → Nat
  | 0 => 0
  | width + 1 => (memory[offset]?.getD 0).toNat + 256 * load memory (offset + 1) width

/-- Memory with bytes appended. -/
def append (memory : ByteArray) (bytes : List UInt8) : ByteArray := bytes.foldl ByteArray.push memory

@[simp]
theorem length_encode (width n : Nat) : (encode width n).length = width := by
  induction width generalizing n with
  | zero => rfl
  | succ width ih => simp [encode, ih]

/-- One more byte. -/
theorem one_shiftLeft_succ (width : Nat) : 1 <<< (8 * (width + 1)) = 256 * 1 <<< (8 * width) := by
  rw [Nat.mul_succ, Nat.shiftLeft_add]
  omega

theorem decode_encode (width n : Nat) : decode (encode width n) = n % 1 <<< (8 * width) := by
  induction width generalizing n with
  | zero => simp [encode, decode, Nat.mod_one]
  | succ width ih =>
    have h : (UInt8.ofNat n).toNat = n % 256 := by simp
    rw [encode, decode, ih, h, one_shiftLeft_succ, Nat.mod_mul]

theorem size_append (memory : ByteArray) (bytes : List UInt8) :
    (append memory bytes).size = memory.size + bytes.length := by
  induction bytes generalizing memory with
  | nil => rfl
  | cons b bs ih =>
    have h : append memory (b :: bs) = append (memory.push b) bs := rfl
    rw [h, ih, ByteArray.size_push, List.length_cons]
    omega

end TableScan.Bytes
