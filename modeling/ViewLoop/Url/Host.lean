import ViewLoop.Url.DomainName
import ViewLoop.Url.Percent

/-!
# Hosts

The host of an address: a name, or a number in version 4 or 6 of the internet protocol. The name
of a special scheme is a domain name in its ASCII form. A name whose last label is a number is a
version 4 address, in up to four parts of base 10, 8 or 16.
-/

namespace ViewLoop.Url

inductive UrlError where
  | emptyHost
  /-- The host is not a name that can be written in ASCII. -/
  | badName
  | badPort
  | badIpv4
  | badIpv6
  | badHostCharacter
  | relativeToNothing
  | relativeToOpaque
  deriving DecidableEq, Repr

def UrlError.message : UrlError → String
  | emptyHost => "empty host"
  | badName => "invalid international domain name"
  | badPort => "invalid port number"
  | badIpv4 => "invalid IPv4 address"
  | badIpv6 => "invalid IPv6 address"
  | badHostCharacter => "invalid domain character"
  | relativeToNothing => "relative URL without a base"
  | relativeToOpaque => "relative URL with a cannot-be-a-base base"

inductive Host where
  /-- A name; the empty name stands where a host could stand but does not. -/
  | name (text : String)
  | ipv4 (address : Nat)
  | ipv6 (pieces : List Nat)
  deriving DecidableEq, Repr

/-! ### Version 4 -/

/-- The digits of a number in some base, or nothing if one of them is none. -/
def numberInBase? (base : Nat) (cs : List Char) : Option Nat :=
  cs.foldl
    (fun acc c => acc.bind fun n =>
      (hexValue? c).bind fun d => if d < base then some (n * base + d) else none)
    (some 0)

/-- One part of a version 4 address: base 16 after `0x`, base 8 after `0`, else base 10. -/
def ipv4Part? : List Char → Option Nat
  | [] => none
  | '0' :: 'x' :: rest => numberInBase? 16 rest
  | '0' :: 'X' :: rest => numberInBase? 16 rest
  | '0' :: c :: rest => numberInBase? 8 (c :: rest)
  | cs => numberInBase? 10 cs

def splitDots (cs : List Char) : List (List Char) := cs.splitOn '.'

/-- The parts of a name, without the empty one after a final dot. -/
def labels (cs : List Char) : List (List Char) :=
  let parts := splitDots cs
  if 1 < parts.length ∧ parts.getLast? = some [] then parts.dropLast else parts

def endsInNumber (cs : List Char) : Bool :=
  match (labels cs).getLast? with
  | none => false
  | some [] => false
  | some last => last.all Char.isDigit || (ipv4Part? last).isSome

/-- The address made of the given parts, the last of which fills the bytes that are left. -/
def ipv4OfParts (parts : List Nat) : Option Nat :=
  match parts.reverse with
  | [] => none
  | last :: front =>
    let room := Nat.pow 256 (5 - parts.length)
    if 4 < parts.length ∨ front.any (255 < ·) ∨ room ≤ last then none
    else some (front.reverse.foldl (fun n p => n * 256 + p) 0 * room + last)

def ipv4? (cs : List Char) : Option Nat := ((labels cs).mapM ipv4Part?).bind ipv4OfParts

def ipv4Text (a : Nat) : String :=
  ".".intercalate
    [toString (a / 0x1000000 % 256), toString (a / 0x10000 % 256), toString (a / 0x100 % 256),
      toString (a % 256)]

/-! ### Version 6 -/

def ipv6Piece? (cs : List Char) : Option Nat :=
  if 1 ≤ cs.length ∧ cs.length ≤ 4 then numberInBase? 16 cs else none

def ipv6Byte? (cs : List Char) : Option Nat :=
  match cs with
  | [] => none
  | '0' :: _ :: _ => none
  | cs =>
    match numberInBase? 10 cs with
    | some n => if n < 256 then some n else none
    | none => none

/-- The pieces of one side of a version 6 address: texts between colons, of which the last may be
a version 4 address that counts for two. -/
def ipv6Side? (allowIpv4 : Bool) : List (List Char) → Option (List Nat)
  | [] => some []
  | [last] =>
    if allowIpv4 && last.contains '.' then
      match (splitDots last).mapM ipv6Byte? with
      | some [a, b, c, d] => some [256 * a + b, 256 * c + d]
      | _ => none
    else (ipv6Piece? last).map ([·])
  | p :: rest => do
    let a ← ipv6Piece? p
    let as ← ipv6Side? allowIpv4 rest
    return a :: as

def splitColons (cs : List Char) : List (List Char) := if cs.isEmpty then [] else cs.splitOn ':'

/-- The text before the first pair of colons and the text after it. -/
def splitGap : List Char → Option (List Char × List Char)
  | ':' :: ':' :: rest => some ([], rest)
  | c :: rest => (splitGap rest).map fun p => (c :: p.1, p.2)
  | [] => none

/-- Reads a version 6 address without its brackets: eight pieces, or fewer with a pair of colons
for the missing ones. -/
def ipv6? (cs : List Char) : Option (List Nat) :=
  match splitGap cs with
  | none => do
    let pieces ← ipv6Side? true (splitColons cs)
    if pieces.length = 8 then some pieces else none
  | some (before, after) => do
    let left ← ipv6Side? false (splitColons before)
    let right ← ipv6Side? true (splitColons after)
    let count := left.length + right.length
    if count < 8 then some (left ++ List.replicate (8 - count) 0 ++ right) else none

def leadingZeros (pieces : List Nat) : Nat := (pieces.takeWhile (· == 0)).length

/-- The place and length of the first longest run of zeros. -/
def longestZeros (pieces : List Nat) : Nat × Nat :=
  (List.range pieces.length).foldl
    (fun best i =>
      let n := leadingZeros (pieces.drop i)
      if best.2 < n then (i, n) else best)
    (0, 0)

def piecesText (pieces : List Nat) : String :=
  ":".intercalate (pieces.map fun p => String.ofList (Nat.toDigits 16 p))

/-- A version 6 address as text: the first longest run of two zeros or more is left out. -/
def ipv6Text (pieces : List Nat) : String :=
  let (start, length) := longestZeros pieces
  if length < 2 then piecesText pieces
  else piecesText (pieces.take start) ++ "::" ++ piecesText (pieces.drop (start + length))

def Host.text : Host → String
  | name s => s
  | ipv4 a => ipv4Text a
  | ipv6 ps => "[" ++ ipv6Text ps ++ "]"

/-! ### Names -/

def forbiddenInHost (c : Char) : Bool :=
  ['\x00', '\t', '\n', '\r', ' ', '#', '/', ':', '<', '>', '?', '@', '[', '\\', ']', '^',
    '|'].contains c

def forbiddenInName (c : Char) : Bool :=
  forbiddenInHost c || c == '%' || controls c

def bracketed? (cs : List Char) : Option (Except UrlError Host) :=
  match cs with
  | '[' :: rest =>
    some <|
      if rest.getLast? = some ']' then
        match ipv6? rest.dropLast with
        | some pieces => .ok (.ipv6 pieces)
        | none => .error .badIpv6
      else .error .badIpv6
  | _ => none

/-- Reads the host of a special scheme. -/
def specialHost (cs : List Char) : Except UrlError Host :=
  match bracketed? cs with
  | some r => r
  | none =>
    match String.fromUTF8? (percentDecode cs).toByteArray with
    | none => .error .badName
    | some decoded =>
      match DomainName.toAscii? decoded.toList with
      | none => .error .badName
      | some [] => .error .emptyHost
      | some name =>
        if name.any forbiddenInName then .error .badName
        else if endsInNumber name then
          match ipv4? name with
          | some a => .ok (.ipv4 a)
          | none => .error .badIpv4
        else .ok (.name (String.ofList name))

/-- Reads the host of any other scheme. -/
def opaqueHost (cs : List Char) : Except UrlError Host :=
  match bracketed? cs with
  | some r => r
  | none =>
    if cs.any forbiddenInHost then .error .badHostCharacter
    else .ok (.name (String.ofList (percentEncode controls cs)))

end ViewLoop.Url
