/-!
# Order of binary floating point

Floating-point values as words, with the comparisons of the standard: values are ordered by
sign and magnitude, the two zeros are equal, and nothing compares to a NaN.
-/

namespace TableScan

/-- A double, as its word. -/
structure Binary64 where
  bits : UInt64
deriving DecidableEq, Repr

/-- A single, as its word. -/
structure Binary32 where
  bits : UInt32
deriving DecidableEq, Repr

namespace Binary64

/-- The word without its sign. -/
def magnitude (x : Binary64) : Nat := x.bits.toNat % 1 <<< 63

/-- The sign bit. -/
def isNegative (x : Binary64) : Bool := 1 <<< 63 ≤ x.bits.toNat

/-- A magnitude above that of infinity is no number. -/
def isNaN (x : Binary64) : Bool := 2047 <<< 52 < x.magnitude

/-- The place of a number on the line of all doubles; both zeros are at the origin. -/
def rank (x : Binary64) : Int := if x.isNegative then -x.magnitude else x.magnitude

/-- `x < y` for numbers. -/
def lt (x y : Binary64) : Bool := !x.isNaN && !y.isNaN && x.rank < y.rank

/-- `x = y` for numbers. -/
def eq (x y : Binary64) : Bool := !x.isNaN && !y.isNaN && x.rank == y.rank

/-- The double of a word built from its fields. -/
def ofFields (negative : Bool) (magnitude : Nat) : Binary64 :=
  ⟨UInt64.ofNat ((if negative then 1 <<< 63 else 0) + magnitude)⟩

/-- The double `m / 2 ^ k`, for a numerator below `2 ^ 53` and `k < 1000`. -/
def ofRatio (m k : Nat) : Binary64 :=
  if m = 0 then ofFields false 0
  else
    let e := m.log2
    ofFields false ((e + 1023 - k) <<< 52 + (m - 1 <<< e) <<< (52 - e))

/-- The size of a number in hundredths, to the nearest, a tie to the even neighbour. -/
def hundredths (x : Binary64) : Nat :=
  let exponent := x.magnitude >>> 52
  let fraction := x.magnitude % 1 <<< 52
  let scaled := 100 * if exponent = 0 then fraction else (1 <<< 52 + fraction) <<< (exponent - 1)
  let quotient := scaled >>> 1074
  let twice := 2 * (scaled % 1 <<< 1074)
  if 1 <<< 1074 < twice ∨ (twice = 1 <<< 1074 ∧ quotient % 2 = 1) then quotient + 1 else quotient

end Binary64

namespace Binary32

/-- The double of the same value.  A subnormal single is a normal double. -/
def widen (x : Binary32) : Binary64 :=
  let word := x.bits.toNat
  let exponent := word >>> 23 % 256
  let fraction := word % 1 <<< 23
  .ofFields (1 <<< 31 ≤ word) <|
    if exponent = 255 then 2047 <<< 52 + fraction <<< 29
    else if 0 < exponent then (exponent + 896) <<< 52 + fraction <<< 29
    else if fraction = 0 then 0
    else
      let e := fraction.log2
      (e + 874) <<< 52 + (fraction - 1 <<< e) <<< (52 - e)

end Binary32

end TableScan
