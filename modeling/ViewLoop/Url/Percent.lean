/-!
# Percent-encoding

Each part of an address has a set of ASCII characters that it cannot hold as they are. These, and
every character that is not ASCII, are written as the bytes of their UTF-8 form, each as a percent
sign and two hexadecimal digits.
-/

namespace ViewLoop.Url

def hexDigit (n : Nat) : Char := (Nat.digitChar n).toUpper

def hexValue? (c : Char) : Option Nat :=
  if c.isDigit then some (c.toNat - '0'.toNat)
  else if 'a' ≤ c ∧ c ≤ 'f' then some (c.toNat - 'a'.toNat + 10)
  else if 'A' ≤ c ∧ c ≤ 'F' then some (c.toNat - 'A'.toNat + 10)
  else none

def percentByte (b : UInt8) : List Char := ['%', hexDigit (b.toNat / 16), hexDigit (b.toNat % 16)]

/-- A set of ASCII characters that are encoded. -/
abbrev EncodeSet := Char → Bool

def controls : EncodeSet := fun c => c.toNat < 0x20 || c.toNat == 0x7f

def fragmentSet : EncodeSet := fun c => controls c || [' ', '"', '<', '>', '\x60'].contains c

def querySet : EncodeSet := fun c => controls c || [' ', '"', '#', '<', '>'].contains c

def specialQuerySet : EncodeSet := fun c => querySet c || c == '\''

def pathSet : EncodeSet := fun c => fragmentSet c || ['#', '?', '\x7b', '\x7d'].contains c

def userinfoSet : EncodeSet := fun c =>
  pathSet c || ['/', ':', ';', '=', '@', '[', '\\', ']', '^', '|'].contains c

def percentChar (set : EncodeSet) (c : Char) : List Char :=
  if c.toNat < 0x80 && !set c then [c] else (String.utf8EncodeChar c).flatMap percentByte

def percentEncode (set : EncodeSet) (cs : List Char) : List Char := cs.flatMap (percentChar set)

/-- The bytes of a text in which every percent sign with two digits stands for a byte. -/
def percentDecode : List Char → List UInt8
  | '%' :: a :: b :: rest =>
    match hexValue? a, hexValue? b with
    | some x, some y => UInt8.ofNat (16 * x + y) :: percentDecode rest
    | _, _ => '%'.toUInt8 :: percentDecode (a :: b :: rest)
  | c :: rest => String.utf8EncodeChar c ++ percentDecode rest
  | [] => []

end ViewLoop.Url
