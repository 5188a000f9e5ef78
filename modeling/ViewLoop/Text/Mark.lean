import ViewLoop.Text.CharacterClass
import ViewLoop.Text.CodeTable

/-!
# Combining marks

Marks belong to the character before them. Some take up room beside it and some do not. The
combining class of a mark tells on which side of the character it stands: marks of different
classes do not touch each other, so that their order means nothing. The marks are those of version
18 of the Unicode character database.
-/

namespace ViewLoop.Text

set_option maxRecDepth 8000 in
/-- Marks that take up room. -/
def spacingMarks : CharacterClass := ⟨[
  0x903, 0x904, 0x93b, 0x93c, 0x93e, 0x941, 0x949, 0x94d, 0x94e, 0x950, 0x982, 0x985, 0x9be,
  0x9c1, 0x9c7, 0x9cd, 0x9d7, 0x9e0, 0xa03, 0xa05, 0xa3e, 0xa41, 0xa83, 0xa85, 0xabe, 0xac1,
  0xac9, 0xacd, 0xb02, 0xb05, 0xb3e, 0xb3f, 0xb40, 0xb41, 0xb47, 0xb4d, 0xb57, 0xb5f, 0xbbe,
  0xbc0, 0xbc1, 0xbcd, 0xbd7, 0xbe6, 0xc01, 0xc04, 0xc41, 0xc46, 0xc82, 0xc84, 0xcbe, 0xcbf,
  0xcc0, 0xcc6, 0xcc7, 0xccc, 0xcd5, 0xcdc, 0xcf3, 0xd00, 0xd02, 0xd04, 0xd3e, 0xd41, 0xd46,
  0xd4d, 0xd57, 0xd58, 0xd82, 0xd85, 0xdcf, 0xdd2, 0xdd8, 0xde6, 0xdf2, 0xdf4, 0xf3e, 0xf40,
  0xf7f, 0xf80, 0x102b, 0x102d, 0x1031, 0x1032, 0x1038, 0x1039, 0x103b, 0x103d, 0x1056, 0x1058,
  0x1062, 0x1065, 0x1067, 0x106e, 0x1083, 0x1085, 0x1087, 0x108d, 0x108f, 0x1090, 0x109a, 0x109d,
  0x1715, 0x171f, 0x1734, 0x1735, 0x17b6, 0x17b7, 0x17be, 0x17c6, 0x17c7, 0x17c9, 0x1923, 0x1927,
  0x1929, 0x1932, 0x1933, 0x1939, 0x1a19, 0x1a1b, 0x1a55, 0x1a56, 0x1a57, 0x1a58, 0x1a61, 0x1a62,
  0x1a63, 0x1a65, 0x1a6d, 0x1a73, 0x1b04, 0x1b05, 0x1b35, 0x1b36, 0x1b3a, 0x1b45, 0x1b82, 0x1b83,
  0x1ba1, 0x1ba2, 0x1ba6, 0x1ba8, 0x1baa, 0x1bab, 0x1be7, 0x1be8, 0x1bea, 0x1bed, 0x1bee, 0x1bef,
  0x1bf2, 0x1bfc, 0x1c24, 0x1c2c, 0x1c34, 0x1c36, 0x1ce1, 0x1ce2, 0x1cf7, 0x1cf8, 0x302e, 0x3030,
  0xa823, 0xa825, 0xa827, 0xa828, 0xa880, 0xa882, 0xa8b4, 0xa8c4, 0xa952, 0xa95f, 0xa983, 0xa984,
  0xa9b4, 0xa9b6, 0xa9ba, 0xa9bc, 0xa9be, 0xa9c1, 0xaa2f, 0xaa31, 0xaa33, 0xaa35, 0xaa4d, 0xaa50,
  0xaa7b, 0xaa7c, 0xaa7d, 0xaa7e, 0xaaeb, 0xaaec, 0xaaee, 0xaaf0, 0xaaf5, 0xaaf6, 0xabe3, 0xabe5,
  0xabe6, 0xabe8, 0xabe9, 0xabeb, 0xabec, 0xabed, 0x11000, 0x11001, 0x11002, 0x11003, 0x11082,
  0x11083, 0x110b0, 0x110b3, 0x110b7, 0x110b9, 0x1112c, 0x1112d, 0x11145, 0x11147, 0x11182,
  0x11183, 0x111b3, 0x111b6, 0x111bf, 0x111c1, 0x111ce, 0x111cf, 0x1122c, 0x1122f, 0x11232,
  0x11234, 0x11235, 0x11236, 0x112e0, 0x112e3, 0x11302, 0x11305, 0x1133e, 0x11340, 0x11341,
  0x11350, 0x11357, 0x1135d, 0x11362, 0x11366, 0x113b8, 0x113bb, 0x113c2, 0x113ce, 0x113cf,
  0x113d0, 0x11435, 0x11438, 0x11440, 0x11442, 0x11445, 0x11446, 0x114b0, 0x114b3, 0x114b9,
  0x114ba, 0x114bb, 0x114bf, 0x114c1, 0x114c2, 0x115af, 0x115b2, 0x115b8, 0x115bc, 0x115be,
  0x115bf, 0x11630, 0x11633, 0x1163b, 0x1163d, 0x1163e, 0x1163f, 0x116ac, 0x116ad, 0x116ae,
  0x116b0, 0x116b6, 0x116b7, 0x1171e, 0x1171f, 0x11720, 0x11722, 0x11726, 0x11727, 0x1182c,
  0x1182f, 0x11838, 0x11839, 0x11930, 0x1193b, 0x1193d, 0x1193e, 0x11940, 0x11941, 0x11942,
  0x11943, 0x119d1, 0x119d4, 0x119dc, 0x119e0, 0x119e4, 0x11a00, 0x11a39, 0x11a3a, 0x11a57,
  0x11a59, 0x11a97, 0x11a98, 0x11b61, 0x11b62, 0x11b65, 0x11b66, 0x11b67, 0x11bc0, 0x11c2f,
  0x11c30, 0x11c3e, 0x11c3f, 0x11ca9, 0x11caa, 0x11cb1, 0x11cb2, 0x11cb4, 0x11cb5, 0x11d8a,
  0x11d90, 0x11d93, 0x11d95, 0x11d96, 0x11d97, 0x11ef5, 0x11ef7, 0x11f03, 0x11f04, 0x11f34,
  0x11f36, 0x11f3e, 0x11f40, 0x11f41, 0x11f42, 0x1612a, 0x1612d, 0x16f51, 0x16f8f, 0x16ff0,
  0x16ff2, 0x1d165, 0x1d167, 0x1d16d, 0x1d17b
]⟩

/-- Marks that take up no room, among the code points that version 17 does not assign. -/
def recentMarks : CharacterClass := ⟨[0x5c8, 0x5ca, 0xb53, 0xb55]⟩

def isNonspacing (c : Char) : Bool :=
  graphemeExtend.contains c && !spacingMarks.contains c && c.toNat != 0x200c ||
    recentMarks.contains c

def isMark (c : Char) : Bool := isNonspacing c || spacingMarks.contains c

/-- The marks of every combining class but 0, as single code points and as first and last ones of
a range. -/
def combiningClasses : List CodeRow := CodeTable.read "
  1= 334 338, 1cd4, 1ce2 1ce8, 20d2 20d3, 20d8 20da, 20e5 20e6, 20ea 20eb, 10a39, 16af0 16af4,
  1bc9e, 1d167 1d169; 6= 16ff0 16ff1; 7= 93c, 9bc, a3c, abc, b3c, c3c, cbc, 1037, 1b34, 1be6,
  1c37, a9b3, 110ba, 11173, 111ca, 11236, 112e9, 1133b 1133c, 11446, 114c3, 115c0, 116b7, 1183a,
  11943, 11d42, 1e94a; 8= 3099 309a; 9= 94d, 9cd, a4d, acd, b4d, bcd, c4d, ccd, d3b d3c, d4d, dca,
  e3a, eba, f84, 1039 103a, 1714 1715, 1734, 17d2, 1a60, 1b44, 1baa 1bab, 1bf2 1bf3, 2d7f, a806,
  a82c, a8c4, a953, a9c0, aaf6, abed, 10a3f, 11046, 11070, 1107f, 110b9, 11133 11134, 111c0,
  11235, 112ea, 1134d, 113ce 113d0, 11442, 114c2, 115bf, 1163f, 116b6, 1172b, 11839, 1193d 1193e,
  119e0, 11a34, 11a47, 11a99, 11c3f, 11d44 11d45, 11d97, 11f41 11f42, 1612f; a= 5b0; b= 5b1; c=
  5b2; d= 5b3; e= 5b4; f= 5b5; 10= 5b6; 11= 5b7; 12= 5b8, 5c7; 13= 5b9 5ba; 14= 5bb; 15= 5bc; 16=
  5bd; 17= 5bf; 18= 5c1; 19= 5c2; 1a= fb1e; 1b= 64b, 8f0; 1c= 64c, 8f1; 1d= 64d, 8f2; 1e= 618,
  64e; 1f= 619, 64f; 20= 61a, 650; 21= 651; 22= 652; 23= 670; 24= 711; 54= c55; 5b= c56; 67= e38
  e39; 6b= e48 e4b; 76= eb8 eb9; 7a= ec8 ecb; 81= f71; 82= f72, f7a f7d, f80; 84= f74; ca= 321
  322, 327 328, 1dd0; d6= 1dce; d8= 31b, f39, 1d165 1d166, 1d16e 1d172; da= 1dfa, 302a; dc= 316
  319, 31c 320, 323 326, 329 333, 339 33c, 347 349, 34d 34e, 353 356, 359 35a, 591, 596, 59b, 5a2
  5a7, 5aa, 5c5, 655 656, 65c, 65f, 6e3, 6ea, 6ed, 731, 734, 737 739, 73b 73c, 73e, 742, 744, 746,
  748, 7f2, 7fd, 859 85b, 899 89b, 8cf 8d3, 8e3, 8e6, 8e9, 8ed 8ef, 8f6, 8f9 8fa, 952, f18 f19,
  f35, f37, fc6, 108d, 193b, 1a18, 1a7f, 1ab5 1aba, 1abd, 1abf 1ac0, 1ac3 1ac4, 1aca, 1add, 1ae6,
  1b6c, 1cd5 1cd9, 1cdc 1cdf, 1ced, 1dc2, 1dca, 1dcf, 1df9, 1dfd, 1dff, 20e8, 20ec 20ef, a92b
  a92d, aab4, fe27 fe2d, 101fd, 102e0, 10a0d, 10a3a, 10ae6, 10efa 10efb, 10efd 10eff, 10f46 10f47,
  10f4b, 10f4d 10f50, 10f83, 10f85, 1d17b 1d182, 1d18a 1d18b, 1e4ee, 1e5ef, 1e8d0 1e8d6; de= 59a,
  5ad, 1939, 302d; e0= 302e 302f; e2= 1d16d; e4= 5ae, 18a9, 1df7 1df8, 302b; e6= 300 314, 33d 346,
  34a 34c, 350 352, 357, 35b, 363 36f, 483 487, 592 595, 597 599, 59c 5a1, 5a8 5a9, 5ab 5ac, 5af,
  5c4, 610 617, 653 654, 657 65b, 65d 65e, 6d6 6dc, 6df 6e2, 6e4, 6e7 6e8, 6eb 6ec, 730, 732 733,
  735 736, 73a, 73d, 73f 741, 743, 745, 747, 749 74a, 7eb 7f1, 7f3, 816 819, 81b 823, 825 827, 829
  82d, 897 898, 89c 89f, 8ca 8ce, 8d4 8e1, 8e4 8e5, 8e7 8e8, 8ea 8ec, 8f3 8f5, 8f7 8f8, 8fb 8ff,
  951, 953 954, 9fe, f82 f83, f86 f87, 135d 135f, 17dd, 193a, 1a17, 1a75 1a7c, 1ab0 1ab4, 1abb
  1abc, 1ac1 1ac2, 1ac5 1ac9, 1acb 1adc, 1ae0 1ae5, 1ae7 1aea, 1b6b, 1b6d 1b73, 1cd0 1cd2, 1cda
  1cdb, 1ce0, 1cf4, 1cf8 1cf9, 1dc0 1dc1, 1dc3 1dc9, 1dcb 1dcc, 1dd1 1df5, 1dfb, 1dfe, 20d0 20d1,
  20d4 20d7, 20db 20dc, 20e1, 20e7, 20e9, 20f0, 2cef 2cf1, 2de0 2dff, a66f, a674 a67d, a69e a69f,
  a6f0 a6f1, a8e0 a8f1, aab0, aab2 aab3, aab7 aab8, aabe aabf, aac1, fe20 fe26, fe2e fe2f, 10376
  1037a, 10a0f, 10a38, 10ae5, 10d24 10d27, 10d69 10d6d, 10eab 10eac, 10f48 10f4a, 10f4c, 10f82,
  10f84, 11100 11102, 11366 11374, 1145e, 16b30 16b36, 1d185 1d189, 1d1aa 1d1ad, 1d242 1d244,
  1e000 1e08f, 1e130 1e136, 1e2ae, 1e2ec 1e2ef, 1e4ef, 1e5ee, 1e6e3, 1e6e6, 1e6ee 1e6ef, 1e6f5,
  1e944 1e949; e8= 315, 31a, 358, 1df6, 302c, 1e4ec 1e4ed; e9= 35c, 35f, 362, 1dfc; ea= 35d 35e,
  360 361, 1aeb, 1dcd"

/-- The combining class of a character; it is 0 for all that do not combine. -/
def combiningClass (c : Char) : Nat :=
  let n := c.toNat
  let covers (range : List Nat) : Bool :=
    match range with
    | [a] => a == n
    | [a, b] => a ≤ n && n ≤ b
    | _ => false
  if n < 0x300 then 0
  else ((combiningClasses.find? fun row => row.entries.any covers).map CodeRow.head).getD 0

end ViewLoop.Text
