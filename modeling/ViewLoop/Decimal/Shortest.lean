/-!
# Shortest decimals

The fewest decimal digits that still name a binary floating-point number: of all decimals that
round to the number, those with the fewest digits, and of these the nearest.

A finite number is first taken apart into a sign and a `Magnitude`, an integer times a power of
two. The decimals that round to it fill an interval around it, and that interval is searched grid
by grid, from one digit upwards, in exact integer arithmetic.
-/

namespace ViewLoop.Decimal

/-- The number `mantissa * 2 ^ exponent`, where `exponent = shift - 1074`. -/
structure Magnitude where
  mantissa : Nat
  /-- The power of two, counted from the smallest that a double can have. -/
  shift : Nat
  deriving DecidableEq, Repr

/-- A decimal `digits * 10 ^ exponent`. -/
structure Scaled where
  digits : Nat
  exponent : Int
  deriving DecidableEq, Repr

namespace Magnitude

/-- The magnitude of a finite double, from the 63 bits below its sign. -/
def ofBits (bits : Nat) : Magnitude :=
  let fraction := bits % 0x10000000000000
  let exponent := bits / 0x10000000000000 % 0x800
  if exponent = 0 then ⟨fraction, 0⟩ else ⟨0x10000000000000 + fraction, exponent - 1⟩

/-- The number in units of `2 ^ -1076`, a quarter of the least double. -/
def quarters (m : Magnitude) : Nat := 4 * m.mantissa * Nat.pow 2 m.shift

/-- Half the distance to the next larger double, in the same units. -/
def gapAbove (m : Magnitude) : Nat := 2 * Nat.pow 2 m.shift

/-- Half the distance to the next smaller double, in the same units: at a power of two the
doubles below lie twice as dense. -/
def gapBelow (m : Magnitude) : Nat :=
  if m.mantissa = 0x10000000000000 ∧ 0 < m.shift then Nat.pow 2 m.shift else 2 * Nat.pow 2 m.shift

/-- Whether `a / b`, in the same units, rounds to the number. The ends of the interval belong to
it when the mantissa is even. -/
def admits (m : Magnitude) (a b : Nat) : Bool :=
  let low := (m.quarters - m.gapBelow) * b
  let high := (m.quarters + m.gapAbove) * b
  if m.mantissa % 2 = 0 then low ≤ a && a ≤ high else low < a && a < high

/-- The value of `d * 10 ^ e` in units of `2 ^ -1076`, as a fraction. -/
def unitsOf (d : Nat) (e : Int) : Nat × Nat :=
  if 0 ≤ e then (d * Nat.pow 10 e.toNat * Nat.pow 2 1076, 1)
  else (d * Nat.pow 2 1076, Nat.pow 10 (-e).toNat)

/-- The multiple of `10 ^ e` that names the number, if one does: of the two neighbours of the
number on that grid the one that rounds to it, the nearer if both do, the even one on a tie. -/
def onGrid (m : Magnitude) (e : Int) : Option Scaled :=
  let (a, b) := unitsOf 1 e
  let d := m.quarters * b / a
  let below := m.admits (d * a) b
  let above := m.admits ((d + 1) * a) b
  let twice := 2 * m.quarters * b
  let middle := (2 * d + 1) * a
  let lower := twice < middle || (twice == middle && d % 2 == 0)
  if below && (!above || lower) then some ⟨d, e⟩
  else if above then some ⟨d + 1, e⟩
  else none

/-- The exponent `k` with `10 ^ k ≤ number < 10 ^ (k + 1)`, searched downwards from 308. -/
def tenExponent (m : Magnitude) : Int :=
  let reaches (k : Int) : Bool :=
    let (a, b) := unitsOf 1 k
    a ≤ m.quarters * b
  ((List.range 640).map fun (i : Nat) => (308 : Int) - i).find? reaches |>.getD (-332)

/-- The shortest decimal that rounds to the number. -/
def shortest (m : Magnitude) : Scaled :=
  let top := m.tenExponent
  ((List.range 20).findSome? fun (i : Nat) => m.onGrid (top - i)).getD ⟨0, 0⟩

end Magnitude

/-! ### Text -/

/-- Whole numbers are written out up to this many places. -/
def placesAbove : Int := 16

/-- Numbers below one keep at most this many zeros after the point. -/
def zerosBelow : Int := 4

def exponentText (e : Int) : String := if 0 ≤ e then "e+" ++ toString e else "e" ++ toString e

/-- The text of a positive decimal without trailing zeros: positional from `0.00001` up to sixteen
places, with a point always, and with an exponent beyond. -/
def Scaled.text (x : Scaled) : String :=
  let ds := Nat.toDigits 10 x.digits
  let n : Int := ds.length
  let point := n + x.exponent
  if 0 ≤ x.exponent ∧ point ≤ placesAbove then
    String.ofList (ds ++ List.replicate x.exponent.toNat '0' ++ ['.', '0'])
  else if 0 < point ∧ point ≤ placesAbove then
    String.ofList (ds.take point.toNat ++ '.' :: ds.drop point.toNat)
  else if -zerosBelow ≤ point ∧ point ≤ 0 then
    String.ofList ('0' :: '.' :: (List.replicate (-point).toNat '0' ++ ds))
  else
    match ds with
    | [d] => String.ofList [d] ++ exponentText (point - 1)
    | ds => String.ofList (ds.take 1 ++ '.' :: ds.drop 1) ++ exponentText (point - 1)

/-- The decimal with the zeros at its end moved into the exponent; `fuel` bounds their number. -/
def Scaled.strip : Nat → Scaled → Scaled
  | 0, x => x
  | fuel + 1, x =>
    if x.digits ≠ 0 ∧ x.digits % 10 = 0 then strip fuel ⟨x.digits / 10, x.exponent + 1⟩ else x

/-- The text of a double: the shortest decimal that names it, always with a point or an
exponent. -/
def text (x : Float) : String :=
  let bits := x.toBits.toNat
  let magnitude := bits % 0x8000000000000000
  let sign := if bits < 0x8000000000000000 then "" else "-"
  if magnitude = 0 then sign ++ "0.0"
  else if magnitude = 0x7ff0000000000000 then sign ++ "inf"
  else if 0x7ff0000000000000 < magnitude then "NaN"
  else sign ++ ((Magnitude.ofBits magnitude).shortest.strip 20).text

end ViewLoop.Decimal
