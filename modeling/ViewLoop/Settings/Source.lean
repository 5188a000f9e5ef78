import ViewLoop.Url.Percent

/-!
# Flat TOML

The part of the TOML notation that settings need: lines that give a text, a whole number or a
truth value to a name. Tables, lists, fractions and dates have no place among the settings, so a
document that holds one is refused as a malformed one is.

Texts stand between double quotes, with escapes, or between single quotes, without; three quotes
of either kind let a text go on over several lines.
-/

namespace ViewLoop.Settings

inductive Scalar where
  | text (s : String)
  | integer (n : Int)
  | flag (b : Bool)
  deriving DecidableEq, Repr

/-! ### Characters -/

def isBlank (c : Char) : Bool := c == ' ' || c == '\t'

def isPrintable (c : Char) : Bool := c == '\t' || (0x20 ≤ c.toNat && c.toNat != 0x7f)

def isBare (c : Char) : Bool := c.isAlphanum || c == '_' || c == '-'

def hexNumber? (cs : List Char) : Option Nat :=
  cs.foldl (fun acc c => acc.bind fun n => (Url.hexValue? c).map fun d => 16 * n + d) (some 0)

def hexChar? (cs : List Char) : Option Char :=
  (hexNumber? cs).bind fun n => if h : n.isValidChar then some (Char.ofNatAux n h) else none

def letterEscape? : Char → Option Char
  | 'b' => some '\x08'
  | 't' => some '\t'
  | 'n' => some '\n'
  | 'f' => some '\x0c'
  | 'r' => some '\r'
  | 'e' => some '\x1b'
  | '"' => some '"'
  | '\\' => some '\\'
  | _ => none

/-! ### Texts -/

def before (c : Option Char) (r : Option (List Char × List Char)) :
    Option (List Char × List Char) :=
  match c, r with
  | some c, some (s, rest) => some (c :: s, rest)
  | _, _ => none

def basicText : List Char → Option (List Char × List Char)
  | [] => none
  | '"' :: rest => some ([], rest)
  | '\\' :: 'u' :: a :: b :: c :: d :: rest => before (hexChar? [a, b, c, d]) (basicText rest)
  | '\\' :: 'U' :: a :: b :: c :: d :: e :: f :: g :: h :: rest =>
    before (hexChar? [a, b, c, d, e, f, g, h]) (basicText rest)
  | '\\' :: 'x' :: a :: b :: rest => before (hexChar? [a, b]) (basicText rest)
  | '\\' :: e :: rest => before (letterEscape? e) (basicText rest)
  | c :: rest => if c ≠ '\\' ∧ isPrintable c then before c (basicText rest) else none

def literalText : List Char → Option (List Char × List Char)
  | [] => none
  | '\'' :: rest => some ([], rest)
  | c :: rest => if isPrintable c then before c (literalText rest) else none

def endsLine (cs : List Char) : Bool :=
  match cs.dropWhile isBlank with
  | '\n' :: _ => true
  | '\r' :: '\n' :: _ => true
  | _ => false

/-- Reads a text over several lines up to its three closing double quotes, of which up to two
more belong to the text. A backslash at the end of a line takes away all white space after it;
`folding` says that such space is being passed over. -/
def basicLines (folding : Bool) : List Char → Option (List Char × List Char)
  | [] => none
  | '"' :: '"' :: '"' :: '"' :: '"' :: '"' :: _ => none
  | '"' :: rest@('"' :: '"' :: '"' :: _) => before (some '"') (basicLines false rest)
  | '"' :: '"' :: '"' :: rest => some ([], rest)
  | '\\' :: 'u' :: a :: b :: c :: d :: rest =>
    before (hexChar? [a, b, c, d]) (basicLines false rest)
  | '\\' :: 'U' :: a :: b :: c :: d :: e :: f :: g :: h :: rest =>
    before (hexChar? [a, b, c, d, e, f, g, h]) (basicLines false rest)
  | '\\' :: 'x' :: a :: b :: rest => before (hexChar? [a, b]) (basicLines false rest)
  | '\\' :: e :: rest =>
    if endsLine (e :: rest) then basicLines true (e :: rest)
    else before (letterEscape? e) (basicLines false rest)
  | '\r' :: '\n' :: rest =>
    if folding then basicLines true rest
    else before (some '\r') (before (some '\n') (basicLines false rest))
  | '\n' :: rest =>
    if folding then basicLines true rest else before (some '\n') (basicLines false rest)
  | c :: rest =>
    if folding && isBlank c then basicLines true rest
    else if c ≠ '\\' ∧ isPrintable c then before c (basicLines false rest)
    else none

/-- Reads a text over several lines up to its three closing single quotes, of which up to two
more belong to the text. -/
def literalLines : List Char → Option (List Char × List Char)
  | [] => none
  | '\'' :: '\'' :: '\'' :: '\'' :: '\'' :: '\'' :: _ => none
  | '\'' :: rest@('\'' :: '\'' :: '\'' :: _) => before (some '\'') (literalLines rest)
  | '\'' :: '\'' :: '\'' :: rest => some ([], rest)
  | '\r' :: '\n' :: rest => before (some '\r') (before (some '\n') (literalLines rest))
  | c :: rest =>
    if c = '\n' ∨ isPrintable c then before c (literalLines rest) else none

/-- A text without the line break at its start. -/
def dropBreak : List Char → List Char
  | '\n' :: rest => rest
  | '\r' :: '\n' :: rest => rest
  | cs => cs

/-! ### Numbers -/

/-- The digits of a number, between which single underscores may stand. -/
def digits? : List Char → Option (List Char)
  | [] => none
  | [c] => if c = '_' then none else some [c]
  | c :: '_' :: d :: rest =>
    if c = '_' then none else (digits? (d :: rest)).map (c :: ·)
  | c :: rest => if c = '_' then none else (digits? rest).map (c :: ·)

def numberOf? (base : Nat) (cs : List Char) : Option Nat :=
  (digits? cs).bind fun ds =>
    ds.foldl
      (fun acc c => acc.bind fun n =>
        (Url.hexValue? c).bind fun d => if d < base then some (base * n + d) else none)
      (some 0)

/-- A number in base 10, which starts with a zero only if it is zero. -/
def decimal? : List Char → Option Nat
  | ['0'] => some 0
  | '0' :: _ => none
  | cs => numberOf? 10 cs

/-- A whole number: in base 10 with an optional sign, or in base 16, 8 or 2 after its mark. -/
def integer? : List Char → Option Int
  | '0' :: 'x' :: rest => (numberOf? 16 rest).map Int.ofNat
  | '0' :: 'o' :: rest => (numberOf? 8 rest).map Int.ofNat
  | '0' :: 'b' :: rest => (numberOf? 2 rest).map Int.ofNat
  | '+' :: rest => (decimal? rest).map Int.ofNat
  | '-' :: rest => (decimal? rest).map fun n => -Int.ofNat n
  | cs => (decimal? cs).map Int.ofNat

/-! ### Documents -/

def scalar? (cs : List Char) : Option (Scalar × List Char) :=
  let asText (r : List Char × List Char) : Scalar × List Char :=
    (.text (String.ofList r.1), r.2)
  match cs with
  | '"' :: '"' :: '"' :: rest => (basicLines false (dropBreak rest)).map asText
  | '"' :: rest => (basicText rest).map asText
  | '\'' :: '\'' :: '\'' :: rest => (literalLines (dropBreak rest)).map asText
  | '\'' :: rest => (literalText rest).map asText
  | cs =>
    let isWord (c : Char) : Bool := isBare c || c == '+'
    let word := cs.takeWhile isWord
    let rest := cs.dropWhile isWord
    if word = ['t', 'r', 'u', 'e'] then some (.flag true, rest)
    else if word = ['f', 'a', 'l', 's', 'e'] then some (.flag false, rest)
    else (integer? word).map fun n => (.integer n, rest)

def name? (cs : List Char) : Option (String × List Char) :=
  match cs with
  | '"' :: rest => (basicText rest).map fun r => (String.ofList r.1, r.2)
  | '\'' :: rest => (literalText rest).map fun r => (String.ofList r.1, r.2)
  | cs =>
    match cs.takeWhile isBare with
    | [] => none
    | name => some (String.ofList name, cs.dropWhile isBare)

/-- Passes over blanks, a comment and the end of the line; the text must not go on there. -/
def endOfLine? (cs : List Char) : Option (List Char) :=
  let rest := cs.dropWhile isBlank
  let rest := match rest with
    | '#' :: comment => comment.dropWhile isPrintable
    | rest => rest
  match rest with
  | [] => some []
  | '\n' :: rest => some rest
  | '\r' :: '\n' :: rest => some rest
  | _ => none

def pair? (cs : List Char) : Option ((String × Scalar) × List Char) := do
  let (name, rest) ← name? cs
  match rest.dropWhile isBlank with
  | '=' :: rest => do
    let (value, rest) ← scalar? (rest.dropWhile isBlank)
    return ((name, value), rest)
  | _ => none

/-- Reads a line: a pair or nothing, and where the next line starts. -/
def line? (cs : List Char) : Option (List (String × Scalar) × List Char) :=
  let rest := cs.dropWhile isBlank
  match endOfLine? rest with
  | some next => some ([], next)
  | none => do
    let (pair, rest) ← pair? rest
    let next ← endOfLine? rest
    return ([pair], next)

/-- Reads lines; each takes at least one character, so `fuel` is the length of the text. -/
def lines? : (fuel : Nat) → List Char → Option (List (String × Scalar))
  | _, [] => some []
  | 0, _ :: _ => none
  | fuel + 1, cs => do
    let (pairs, next) ← line? cs
    let more ← lines? fuel next
    return pairs ++ more

/-- The names and values of a flat document, each name once, or nothing if it is none. -/
def source? (s : String) : Option (List (String × Scalar)) :=
  let cs := match s.toList with
    | '\ufeff' :: rest => rest
    | cs => cs
  (lines? cs.length cs).filter fun pairs => (pairs.map Prod.fst).Nodup

end ViewLoop.Settings
