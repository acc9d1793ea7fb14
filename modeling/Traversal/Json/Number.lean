import Traversal.Json.Token

namespace Traversal.Json

/-- The value of a number. Whole numbers that fit 64 bits, signed if negative, stay whole; all
others, and a negative zero, are doubles. -/
inductive Number where
  | natural (n : Nat)
  | negative (n : Nat)
  | real (x : Float)

namespace Numeral

def digitValue (c : Char) : Nat :=
  c.toNat - '0'.toNat

def ofDigits (ds : List Char) : Nat :=
  ds.foldl (fun n c => n * 10 + digitValue c) 0

/-- Extends a significand by digits as long as it fits 64 bits; the digits that are left over come
second. -/
def extend (significand : Nat) : List Char → Nat × List Char
  | [] => (significand, [])
  | c :: cs =>
    let next := significand * 10 + digitValue c
    if next < UInt64.size then extend next cs else (significand, c :: cs)

/-- Powers of ten with exponents of at most 308. -/
def tenTo (e : Nat) : Float :=
  Float.ofScientific 1 false e

/-- Scales by a power of ten in steps of at most 308 places; `none` if the result is too large. -/
def scale (x : Float) (e : Int) : Option Float :=
  if 0 ≤ e then
    if e ≤ 308 then
      let y := x * tenTo e.toNat
      if y.isInf then none else some y
    else if x == 0.0 then some x
    else none
  else if -308 ≤ e then some (x / tenTo (-e).toNat)
  else if x == 0.0 then some x
  else scale (x / tenTo 308) (e + 308)
termination_by (-e).toNat
decreasing_by omega

/-- The magnitude as a double: the leading digits that fit 64 bits, scaled. -/
def magnitude (n : Numeral) : Option Float :=
  let (head, dropped) := extend 0 n.whole
  let (significand, unread) := extend head n.fraction
  let places : Int := (dropped.length : Int) - (n.fraction.length - unread.length : Nat)
  let x := significand.toUInt64.toFloat
  match n.exponent with
  | none => scale x places
  | some (below, ds) =>
    let e := ofDigits ds
    if 0x80000000 ≤ e then if significand = 0 || below then some 0.0 else none
    else scale x (if below then places - e else places + e)

/-- The value of a number; `none` if it is too large for a double. -/
def value? (n : Numeral) : Option Number :=
  let whole := ofDigits n.whole
  if n.fraction.isEmpty && n.exponent.isNone && !n.negative && whole < UInt64.size then
    some (.natural whole)
  else if n.fraction.isEmpty && n.exponent.isNone && n.negative && 0 < whole &&
      whole ≤ 0x8000000000000000 then
    some (.negative whole)
  else n.magnitude.map fun x => .real (if n.negative then -x else x)

end Numeral

end Traversal.Json
