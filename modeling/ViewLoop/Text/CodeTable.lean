/-!
# Tables of code points

A long table is written as text, in rows that end with semicolons. A row starts with a number and
an equals sign and goes on with entries between commas; an entry is a few numbers between blanks.
All numbers are in base 16.
-/

namespace ViewLoop.Text

structure CodeRow where
  head : Nat
  entries : Array (List Nat)
  deriving Repr

namespace CodeTable

def digitValue (c : Char) : Nat :=
  if c.isDigit then c.toNat - '0'.toNat else c.toNat - 'a'.toNat + 10

def number (cs : List Char) : Nat := cs.foldl (fun n c => 16 * n + digitValue c) 0

def entry (cs : List Char) : List Nat :=
  ((cs.splitOnP Char.isWhitespace).filter fun word => !word.isEmpty).map number

def row (cs : List Char) : CodeRow where
  head := ((entry (cs.takeWhile (· ≠ '='))).head?).getD 0
  entries := ((((cs.dropWhile (· ≠ '=')).drop 1).splitOn ',').map entry).toArray

def read (table : String) : List CodeRow := (table.toList.splitOn ';').map row

end CodeTable

end ViewLoop.Text
