namespace Traversal.Decimal

/-- The positive number `mantissa · 2 ^ exponent` of a binary format. It is narrow below if the
next smaller number of the format is half as far away as the next larger one. -/
structure Binary where
  mantissa : Nat
  exponent : Int
  narrow : Bool

/-- The number `digits · 10 ^ exponent`. -/
structure Digits where
  digits : Nat
  exponent : Int

namespace Binary

/-- Numerator and denominator of `quarters · 2 ^ (exponent - 2)`. -/
def ratio (x : Binary) (quarters : Nat) : Nat × Nat :=
  if 2 ≤ x.exponent then (quarters <<< (x.exponent - 2).toNat, 1)
  else (quarters, 1 <<< (2 - x.exponent).toNat)

/-- Numerator and denominator of a quotient divided by a power of ten. -/
def overTen (r : Nat × Nat) (e : Int) : Nat × Nat :=
  if 0 ≤ e then (r.1, r.2 * Nat.pow 10 e.toNat) else (r.1 * Nat.pow 10 (-e).toNat, r.2)

/-- The exponent of ten of the leading digit. -/
def leading (x : Binary) : Int :=
  let r := x.ratio (4 * x.mantissa)
  let e : Int := ((Nat.toDigits 10 r.1).length : Int) - (Nat.toDigits 10 r.2).length
  let s := overTen r e
  if s.2 ≤ s.1 then e else e - 1

/-- Whether `digits · 10 ^ e` is read back as `x`: it lies no further than half way to the next
number of the format, and half way counts if the mantissa is even. -/
def covers (x : Binary) (e : Int) (digits : Nat) : Bool :=
  let low := overTen (x.ratio (4 * x.mantissa - if x.narrow then 1 else 2)) e
  let high := overTen (x.ratio (4 * x.mantissa + 2)) e
  if x.mantissa % 2 = 0 then low.1 ≤ digits * low.2 && digits * high.2 ≤ high.1
  else low.1 < digits * low.2 && digits * high.2 < high.1

/-- The multiple of `10 ^ e` nearest to `x` that is read back as `x`; of two equally near ones the
even one. -/
def onGrid? (x : Binary) (e : Int) : Option Nat :=
  let r := overTen (x.ratio (4 * x.mantissa)) e
  let below := r.1 / r.2
  let above := below + 1
  match x.covers e below, x.covers e above with
  | false, false => none
  | true, false => some below
  | false, true => some above
  | true, true =>
    let left := r.1 - below * r.2
    let right := above * r.2 - r.1
    if left < right then some below
    else if right < left then some above
    else if below % 2 = 0 then some below
    else some above

/-- Tries ever finer grids. -/
def refine (x : Binary) (e : Int) : Nat → Digits
  | 0 => ⟨(x.onGrid? e).getD 0, e⟩
  | fuel + 1 =>
    match x.onGrid? e with
    | some d => ⟨d, e⟩
    | none => x.refine (e - 1) fuel

/-- The fewest digits that are read back as `x`. Seventeen digits always suffice for a double. -/
def shortest (x : Binary) : Digits :=
  x.refine x.leading 17

/-- The positive finite double with the given bits. -/
def ofBits (bits : UInt64) : Binary :=
  let fraction := bits.toNat % 0x10000000000000
  let biased := bits.toNat / 0x10000000000000 % 0x800
  if biased = 0 then ⟨fraction, -1074, false⟩
  else ⟨fraction + 0x10000000000000, (biased : Int) - 1075, fraction = 0 && 1 < biased⟩

end Binary

namespace Digits

/-- A number is written in full if its leading digit stands between the fifth place after the point
and the sixteenth place before it; otherwise with a signed exponent. There is always a digit on
both sides of a point. -/
def text (x : Digits) : List Char :=
  let ds := Nat.toDigits 10 x.digits
  let lead := x.exponent + ds.length - 1
  if lead < -5 || 15 < lead then
    let point := if ds.length = 1 then ds else ds.take 1 ++ '.' :: ds.drop 1
    point ++ 'e' :: (if lead < 0 then '-' else '+') :: Nat.toDigits 10 lead.natAbs
  else if 0 ≤ x.exponent then ds ++ List.replicate x.exponent.toNat '0' ++ ['.', '0']
  else if 0 ≤ lead then ds.take (lead.toNat + 1) ++ '.' :: ds.drop (lead.toNat + 1)
  else '0' :: '.' :: List.replicate (-lead - 1).toNat '0' ++ ds

/-- Leaves out zeros at the end of the digits. -/
def normal (x : Digits) : Nat → Digits
  | 0 => x
  | fuel + 1 =>
    if x.digits % 10 = 0 && x.digits != 0 then normal ⟨x.digits / 10, x.exponent + 1⟩ fuel else x

end Digits

/-- A finite double in the fewest digits that are read back as it. -/
def floatText (x : Float) : String :=
  let bits := x.toBits
  let negative := 0x8000000000000000 ≤ bits
  let body :=
    if bits.toNat % 0x8000000000000000 = 0 then ['0', '.', '0']
    else ((Binary.ofBits bits).shortest.normal 17).text
  String.ofList (if negative then '-' :: body else body)

end Traversal.Decimal
