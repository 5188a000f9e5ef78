import ViewLoop.Text.Composition
import ViewLoop.Text.Direction
import ViewLoop.Text.Joining
import ViewLoop.Url.DomainName.Spelling
import ViewLoop.Url.Punycode

/-!
# Internationalized domain names

A domain name is a row of labels between dots. Names that read alike are one name: a name is
spelled in small letters and composed, and then each label that holds more than ASCII is written
in Punycode after the mark `xn--`. A label that comes with the mark must stand for characters that
are spelled and composed already.
-/

namespace ViewLoop.Url.DomainName

open ViewLoop.Text

def isAscii (c : Char) : Bool := c.toNat < 0x80

/-- The spelling of a text, or nothing if no name can hold it. -/
def spelled? (cs : List Char) : Option (List Char) := (cs.mapM spelling?).map List.flatten

/-- The most characters that a label beyond ASCII can have. -/
def mostCharacters : Nat := 1000

/-- The most characters that a label in Punycode can have after its mark. -/
def mostDigits : Nat := 2000

/-- Whether characters beyond ASCII can be a label: it is not too long, starts with no mark and
has no idle joiners. -/
def isSound (label : List Char) : Bool :=
  label.length ≤ mostCharacters && !(label.head?.map isMark).getD false && joinersMatter [] label

structure Label where
  characters : List Char
  written : List Char
  deriving DecidableEq, Repr

def Label.read? (label : List Char) : Option Label :=
  match label with
  | 'x' :: 'n' :: '-' :: '-' :: form => do
    if mostDigits < form.length ∨ !form.all isAscii then none
    let characters ← Punycode.decode form
    if characters.any (fun c => !isAscii c) ∧
        Punycode.encode characters = form ∧ spelled? characters = some characters ∧
        composed characters = characters ∧ isSound characters
    then some ⟨characters, label⟩ else none
  | characters =>
    if characters.all isAscii then some ⟨characters, characters⟩
    else if isSound characters then
      some ⟨characters, 'x' :: 'n' :: '-' :: '-' :: Punycode.encode characters⟩
    else none

/-- The form of a name in ASCII, or nothing if it has none. If any of its labels runs from right
to left, all of them must keep together. -/
def toAscii? (cs : List Char) : Option (List Char) := do
  let characters ← spelled? cs
  let labels ← ((composed characters).splitOn '.').mapM Label.read?
  if labels.any (fun l => l.characters.any turnsBack) &&
      !labels.all fun l => keepsTogether l.characters then none
  else some (List.intercalate ['.'] (labels.map Label.written))

end ViewLoop.Url.DomainName
