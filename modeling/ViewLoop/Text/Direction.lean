import ViewLoop.Text.Mark

/-!
# Direction of writing

A text can hold runs that are read from left to right and runs that are read from right to left.
In a row of labels with such runs each label must keep its characters together however the whole
is shown: it starts with a letter, that letter gives the direction, and the label neither holds
letters of the other direction nor ends with a sign. The directions are those of version 18 of the
Unicode character database.
-/

namespace ViewLoop.Text

/-- The ways in which a character takes part in the direction of a text. -/
inductive Direction where
  | leftToRight
  | rightToLeft
  | arabicDigit
  | europeanDigit
  | neutral
  | mark
  deriving DecidableEq, Repr

/-- Letters read from right to left, among the characters that are none of the digits below. -/
def rightToLeftLetters : CharacterClass := ⟨[
  0x5be, 0x606, 0x608, 0x609, 0x60b, 0x60c, 0x60d, 0x60e, 0x61b, 0x66a, 0x66d, 0x6de, 0x6e5,
  0x6e9, 0x6ee, 0x6f0, 0x6fa, 0x7f6, 0x7fa, 0x903, 0xfbb2, 0xfbc3, 0xfe73, 0x10000, 0x10800,
  0x1091f, 0x10920, 0x10b39, 0x10b40, 0x10d6e, 0x10d6f, 0x10ed0, 0x10f00, 0x11000, 0x1e800,
  0x1eef0
]⟩

/-- Digits that follow Arabic letters. -/
def arabicDigits : CharacterClass := ⟨[
  0x660, 0x66a, 0x66b, 0x66d, 0x10d30, 0x10d3a, 0x10d40, 0x10d4a, 0x10e60, 0x10e80
]⟩

/-- Digits of any other text. -/
def europeanDigits : CharacterClass := ⟨[
  0x30, 0x3a, 0x6f0, 0x6fa, 0x102e1, 0x10300
]⟩

/-- Signs, among the characters that are no digits and not read from right to left. -/
def neutralSigns : CharacterClass := ⟨[
  0x0, 0x9, 0xe, 0x1c, 0x21, 0x61, 0x7b, 0xdf, 0xf7, 0xf8, 0x2b9, 0x2bb, 0x2c2, 0x2d0, 0x2d2,
  0x2ee, 0x2ef, 0x371, 0x375, 0x377, 0x3f6, 0x3f8, 0x58a, 0x903, 0x9f2, 0x9f4, 0x9fb, 0x9fc,
  0xaf1, 0xaf9, 0xbf3, 0xc01, 0xc78, 0xc7f, 0xe3f, 0xe40, 0xf3a, 0xf3e, 0x1390, 0x13a0, 0x1400,
  0x1401, 0x169b, 0x16a0, 0x17db, 0x17dc, 0x17f0, 0x1810, 0x1940, 0x1946, 0x19de, 0x1a00, 0x200c,
  0x214e, 0x218a, 0x2336, 0x237b, 0x2395, 0x2396, 0x26ac, 0x26ad, 0x2800, 0x2900, 0x2c30, 0x2ce5,
  0x2cec, 0x2cf9, 0x2d00, 0x2e00, 0x3005, 0x3008, 0x3021, 0x3030, 0x3031, 0x3037, 0x303b, 0x303d,
  0x3041, 0x30a0, 0x30a1, 0x30fb, 0x30fc, 0x31c0, 0x31f0, 0x4dc0, 0x4e00, 0xa490, 0xa4d0, 0xa60d,
  0xa610, 0xa673, 0xa681, 0xa700, 0xa723, 0xa788, 0xa789, 0xa828, 0xa830, 0xa838, 0xa840, 0xa874,
  0xa880, 0xab6a, 0xabc0, 0xfbc3, 0x10000, 0x10101, 0x10102, 0x10140, 0x1018d, 0x10190, 0x101d0,
  0x1091f, 0x11000, 0x11052, 0x11066, 0x11660, 0x11680, 0x11fd5, 0x11fff, 0x16fe2, 0x16fe3,
  0x1cc00, 0x1cf50, 0x1d1e9, 0x1d2c0, 0x1d300, 0x1d360, 0x1e2ff, 0x1e4d0, 0x1eef0, 0x1f150,
  0x1f16d, 0x1f170, 0x1f1ad, 0x1f1e6, 0x1f260, 0x20000
]⟩

/-- Marks that are letters for the direction. -/
def strongMarks : CharacterClass := ⟨[
  0xcbf, 0xcc0, 0xcc6, 0xcc7, 0x11a07, 0x11a09, 0x11c3f, 0x11c40
]⟩

def Direction.of (c : Char) : Direction :=
  if isNonspacing c && !strongMarks.contains c then mark
  else if arabicDigits.contains c then arabicDigit
  else if europeanDigits.contains c then europeanDigit
  else if rightToLeftLetters.contains c then rightToLeft
  else if neutralSigns.contains c then neutral
  else leftToRight

/-- Whether a character makes a text run from right to left. The scripts that do start with the
Hebrew one. -/
def turnsBack (c : Char) : Bool :=
  0x590 ≤ c.toNat && [.rightToLeft, .arabicDigit].contains (Direction.of c)

/-- Whether a label keeps together among labels that run from right to left. -/
def keepsTogether (label : List Char) : Bool :=
  match label.map Direction.of with
  | [] => true
  | first :: rest =>
    match first, rest.reverse.dropWhile (· = .mark) with
    | .leftToRight, [] => true
    | .leftToRight, last :: inner =>
      [.leftToRight, .europeanDigit].contains last &&
        inner.all fun d => d != .rightToLeft && d != .arabicDigit
    | .rightToLeft, [] => true
    | .rightToLeft, last :: inner =>
      [.rightToLeft, .europeanDigit, .arabicDigit].contains last &&
        !inner.contains .leftToRight &&
        !((last :: inner).contains .europeanDigit && (last :: inner).contains .arabicDigit)
    | _, _ => false

end ViewLoop.Text
