import TableScan.Binary64

/-!
# Numbers on the command line

Decimal numbers as they are written in arguments.  Only ASCII digits count, and nothing may stand
before or after the number.
-/

namespace TableScan.CommandLine

/-- The number of a row of digits, after the digits already read. -/
def digitsFrom (n : Nat) (cs : List Char) : Nat :=
  cs.foldl (fun n c => 10 * n + (c.toNat - '0'.toNat)) n

/-- The text without a leading plus sign. -/
def dropPlus : List Char → List Char
  | '+' :: cs => cs
  | cs => cs

/-- A number without sign that fits in a word. -/
def readWord? (s : String) : Option Nat :=
  let cs := dropPlus s.toList
  if cs ≠ [] ∧ cs.all Char.isDigit ∧ digitsFrom 0 cs < 1 <<< 64 then some (digitsFrom 0 cs)
  else none

/-- The exponent of a decimal: a sign and at least one digit. -/
def readExponent? (cs : List Char) : Option Int :=
  let (negative, cs) := match cs with
    | '-' :: rest => (true, rest)
    | _ => (false, dropPlus cs)
  if cs ≠ [] ∧ cs.all Char.isDigit then
    some (if negative then -digitsFrom 0 cs else digitsFrom 0 cs)
  else none

/-- A decimal number: `digits * 10 ^ exponent`. -/
structure Decimal where
  digits : Nat
  exponent : Int
deriving DecidableEq, Repr

/-- A decimal without sign, with a digit before or after the point and an exponent if it likes. -/
def readDecimal? (cs : List Char) : Option Decimal :=
  let whole := cs.takeWhile Char.isDigit
  let cs := cs.dropWhile Char.isDigit
  let (fraction, cs) := match cs with
    | '.' :: rest => (rest.takeWhile Char.isDigit, rest.dropWhile Char.isDigit)
    | _ => ([], cs)
  let exponent := match cs with
    | [] => some 0
    | c :: rest => if c = 'e' ∨ c = 'E' then readExponent? rest else none
  if whole = [] ∧ fraction = [] then none
  else exponent.map fun e => ⟨digitsFrom 0 (whole ++ fraction), e - fraction.length⟩

/-- The double nearest to a decimal.  Past the range of doubles lie infinity and zero. -/
def Decimal.toBinary64 (d : Decimal) (negative : Bool) : Binary64 :=
  let places : Int := (toString d.digits).length + d.exponent
  .ofFields negative <|
    if d.digits = 0 ∨ places < -400 then 0
    else if 400 < places then 2047 <<< 52
    else (Float.ofScientific d.digits (d.exponent < 0) d.exponent.natAbs).toBits.toNat

/-- A double: a decimal, `inf`, `infinity` or `nan`, each with a sign if it likes; the words in
any case. -/
def readDouble? (s : String) : Option Binary64 :=
  let (negative, cs) := match s.toList with
    | '-' :: rest => (true, rest)
    | cs => (false, dropPlus cs)
  let word := String.ofList (cs.map Char.toLower)
  if word = "inf" ∨ word = "infinity" then some (.ofFields negative (2047 <<< 52))
  else if word = "nan" then some (.ofFields negative (2047 <<< 52 + 1 <<< 51))
  else (readDecimal? cs).map (·.toBinary64 negative)

end TableScan.CommandLine
