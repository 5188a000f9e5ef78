/-!
# Punycode

The ASCII form of a label that holds other characters: its ASCII characters, a hyphen, and the
others as differences in a variable-length number system of base 36 whose thresholds adapt to the
size of the differences.
-/

namespace ViewLoop.Url.Punycode

def digit (n : Nat) : Char :=
  if n < 26 then Char.ofNat ('a'.toNat + n) else Char.ofNat ('0'.toNat + n - 26)

def value? (c : Char) : Option Nat :=
  if 'a' ≤ c ∧ c ≤ 'z' then some (c.toNat - 'a'.toNat)
  else if 'A' ≤ c ∧ c ≤ 'Z' then some (c.toNat - 'A'.toNat)
  else if c.isDigit then some (c.toNat - '0'.toNat + 26)
  else none

def threshold (bias k : Nat) : Nat := min 26 (max 1 (k - bias))

/-- Divides by 35 while the number exceeds 455, and counts 36 for each division. -/
def damped : (fuel delta k : Nat) → Nat × Nat
  | 0, delta, k => (delta, k)
  | fuel + 1, delta, k => if 455 < delta then damped fuel (delta / 35) (k + 36) else (delta, k)

/-- The bias after a difference was written as the `count`-th. -/
def adapt (delta count : Nat) (first : Bool) : Nat :=
  let halved := if first then delta / 700 else delta / 2
  let start := halved + halved / count
  let r := damped start start 0
  r.2 + 36 * r.1 / (r.1 + 38)

/-- The digits of a difference, from place `k` on; `fuel` bounds their number. -/
def digits (bias : Nat) : (fuel q k : Nat) → List Char
  | 0, _, _ => []
  | fuel + 1, q, k =>
    let t := threshold bias k
    if q < t then [digit q]
    else digit (t + (q - t) % (36 - t)) :: digits bias fuel ((q - t) / (36 - t)) (k + 36)

/-- Where the encoder stands: the last code point, the difference, the bias, the number of
characters written, and what was written. -/
structure Encoder where
  next : Nat := 128
  delta : Nat := 0
  bias : Nat := 72
  written : Nat
  output : List Char

/-- Writes every character with the code point `m`, looking through the label once. -/
def Encoder.pass (ascii m : Nat) (e : Encoder) : List Nat → Encoder
  | [] => e
  | c :: rest =>
    if c < m then pass ascii m { e with delta := e.delta + 1 } rest
    else if c = m then
      pass ascii m
        { e with
          delta := 0
          bias := adapt e.delta (e.written + 1) (e.written == ascii)
          written := e.written + 1
          output := e.output ++ digits e.bias (e.delta + 1) e.delta 36 } rest
    else pass ascii m e rest

def Encoder.passes (ascii : Nat) (label : List Nat) (e : Encoder) : List Nat → Encoder
  | [] => e
  | m :: rest =>
    let e := { e with delta := e.delta + (m - e.next) * (e.written + 1) }
    let e := e.pass ascii m label
    passes ascii label { e with next := m + 1, delta := e.delta + 1 } rest

/-- The ASCII form of a label, without its mark. -/
def encode (label : List Char) : List Char :=
  let ascii := label.filter fun c => c.toNat < 128
  let others := ((label.map Char.toNat).filter fun n => 128 ≤ n).mergeSort.eraseDups
  let start : Encoder :=
    { written := ascii.length, output := if ascii.isEmpty then [] else ascii ++ ['-'] }
  (start.passes ascii.length (label.map Char.toNat) others).output

def readDifference (bias : Nat) : (k weight value : Nat) → List Char → Option (Nat × List Char)
  | _, _, _, [] => none
  | k, weight, value, c :: rest =>
    match value? c with
    | none => none
    | some d =>
      let t := threshold bias k
      if d < t then some (value + d * weight, rest)
      else readDifference bias (k + 36) (weight * (36 - t)) (value + d * weight) rest

/-- Puts in the characters that the digits stand for; `fuel` bounds their number. -/
def insertAll : (fuel next index bias : Nat) → (label digits : List Char) → Option (List Char)
  | _, _, _, _, label, [] => some label
  | 0, _, _, _, _, _ :: _ => none
  | fuel + 1, next, index, bias, label, digits@(_ :: _) =>
    match readDifference bias 36 1 0 digits with
    | none => none
    | some (difference, rest) =>
      let count := label.length + 1
      let place := index + difference
      let code := next + place / count
      if h : code.isValidChar then
        let spot := place % count
        insertAll fuel code (spot + 1) (adapt difference count (index == 0))
          (label.take spot ++ Char.ofNatAux code h :: label.drop spot) rest
      else none

/-- The label with the given ASCII form, if there is one. -/
def decode (form : List Char) : Option (List Char) :=
  let back := form.reverse
  let tail := (back.takeWhile (· ≠ '-')).reverse
  let ascii := if form.contains '-' then ((back.dropWhile (· ≠ '-')).drop 1).reverse else []
  insertAll tail.length 128 0 72 ascii tail

end ViewLoop.Url.Punycode
