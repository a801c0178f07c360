import TableScan.Filter

/-!
# Predicates

A small language of row conditions: comparisons and remainders of fields with constants,
connectives that stop at the first answer, and conditions on how often they were asked.
-/

namespace TableScan

/-- A comparison. -/
inductive Comparison
  | lt | le | eq | ne | ge | gt
deriving DecidableEq, Repr

namespace Comparison

/-- A comparison of integers. -/
def holds (c : Comparison) (a b : Int) : Bool :=
  match c with
  | lt => a < b
  | le => a ≤ b
  | eq => a == b
  | ne => a != b
  | ge => b ≤ a
  | gt => b < a

/-- A comparison of doubles.  With a NaN only `ne` holds. -/
def holdsReal (c : Comparison) (a b : Binary64) : Bool :=
  match c with
  | lt => a.lt b
  | le => a.lt b || a.eq b
  | eq => a.eq b
  | ne => !a.eq b
  | ge => b.lt a || a.eq b
  | gt => b.lt a

/-- A comparison of texts, which are equal or not; there is no order on them. -/
def holdsText (c : Comparison) (a b : Option String) : Bool :=
  match c with
  | eq => a == b
  | ne => a != b
  | _ => false

end Comparison

/-- The constant of a comparison. -/
inductive Constant
  | integer (value : Int)
  | real (value : Binary64)
  | text (value : Option String)
deriving DecidableEq, Repr

namespace Reading

/-- The whole number that was read, with truth as one. -/
def integer? : Reading → Option Int
  | cell (.bool b) => some b.toNat
  | cell (.byte v) => some v.toInt
  | cell (.short v) => some v.toInt
  | cell (.int v) => some v.toInt
  | cell (.long v) => some v.toInt
  | rowId i => some i.word.toNat
  | _ => none

/-- The floating-point number that was read, as a double. -/
def real? : Reading → Option Binary64
  | cell (.float v) => some v.widen
  | cell (.double v) => some v
  | _ => none

/-- A reading against a constant of its kind.  Things of two kinds do not compare. -/
def compare? (r : Reading) (c : Comparison) (k : Constant) : Except Fault Bool :=
  match k with
  | .integer b => (r.integer?.map (c.holds · b)).elim (.error .wrongType) .ok
  | .real b => (r.real?.map (c.holdsReal · b)).elim (.error .wrongType) .ok
  | .text b =>
      match r with
      | text a => .ok (c.holdsText a b)
      | _ => .error .wrongType

/-- Whether the remainder of a reading, with the sign of the reading, is the given one. -/
def hasRemainder (r : Reading) (modulus remainder : Int) : Except Fault Bool :=
  if modulus = 0 then .error .abandoned
  else (r.integer?.map (·.tmod modulus == remainder)).elim (.error .wrongType) .ok

end Reading

/-- A condition on rows. -/
inductive Predicate
  | const (value : Bool)
  | not (p : Predicate)
  | and (p q : Predicate)
  | or (p q : Predicate)
  | compare (c : Comparison) (field : Field) (constant : Constant)
  | remainder (field : Field) (modulus remainder : Int)
  /-- Fails with a text. -/
  | fail (text : String)
  /-- Gives up. -/
  | abandon
  /-- Holds the first `n` times that it is asked. -/
  | limit (n : Nat)
deriving Repr, Inhabited

namespace Predicate

/-- The conjunction of a list, from left to right. -/
def all (ps : List Predicate) : Predicate := ps.foldr and (const true)

/-- The disjunction of a list, from left to right. -/
def any (ps : List Predicate) : Predicate := ps.foldr or (const false)

/-- The verdict of a condition that may be faulted. -/
def verdictOf : Except Fault Bool → Verdict
  | .ok b => .ofBool b
  | .error fault => .faults fault

/-- The verdict of a predicate on a row, and the count of limits asked so far. -/
def judge : Predicate → RowView → Nat → Verdict × Nat
  | const b, _, asked => (.ofBool b, asked)
  | not p, v, asked =>
      match p.judge v asked with
      | (.keep, asked) => (.skip, asked)
      | (.skip, asked) => (.keep, asked)
      | stopped => stopped
  | and p q, v, asked =>
      match p.judge v asked with
      | (.keep, asked) => q.judge v asked
      | decided => decided
  | or p q, v, asked =>
      match p.judge v asked with
      | (.skip, asked) => q.judge v asked
      | decided => decided
  | compare c field k, v, asked => (verdictOf ((v.read field).bind (·.compare? c k)), asked)
  | remainder field m r, v, asked =>
      (verdictOf ((v.read field).bind (·.hasRemainder m r)), asked)
  | fail text, _, asked => (.fails text, asked)
  | abandon, _, asked => (.faults .abandoned, asked)
  | limit n, _, asked => (.ofBool (asked < n), asked + 1)

end Predicate

end TableScan
