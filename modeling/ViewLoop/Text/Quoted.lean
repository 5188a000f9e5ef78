import ViewLoop.Text.CharacterClass

/-!
# Quoted text

A text between double quotes in which every character can be seen: quotes, backslashes and the
common controls are written with a backslash, and characters without a glyph, or that would melt
into the character before them, are written by their code point in braces.
-/

namespace ViewLoop.Text

def hex (n : Nat) : List Char := Nat.toDigits 16 n

/-- How one character is written inside quotes. -/
def quotedChar (c : Char) : List Char :=
  match c with
  | '"' => ['\\', '"']
  | '\\' => ['\\', '\\']
  | '\n' => ['\\', 'n']
  | '\r' => ['\\', 'r']
  | '\t' => ['\\', 't']
  | '\x00' => ['\\', '0']
  | c =>
    if graphemeExtend.contains c || unprintable.contains c then
      ['\\', 'u', '\x7b'] ++ hex c.toNat ++ ['\x7d']
    else [c]

def quoted (s : String) : String :=
  String.ofList ('"' :: (s.toList.flatMap quotedChar ++ ['"']))

end ViewLoop.Text
