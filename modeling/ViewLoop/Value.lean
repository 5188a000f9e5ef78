import ViewLoop.Decimal.Shortest
import ViewLoop.Text.Quoted

/-!
# Event data

The structured data that an event carries: numbers, texts, lists and records, as a host reports
them. Whole numbers and fractional numbers are two kinds: `1` is an integer and `1.0` is not.

A reader takes a value of the form that a handler expects, or says how the value falls short. The
reasons are a `Mismatch`; `Mismatch.message` is their text.
-/

namespace ViewLoop

inductive Value where
  | null
  | flag (b : Bool)
  | integer (n : Int)
  | real (x : Float)
  | text (s : String)
  | list (items : List Value)
  | record (fields : List (String × Value))
  deriving Repr, Inhabited

namespace Value

def describe : Value → String
  | null => "null"
  | flag b => "boolean `" ++ toString b ++ "`"
  | integer n => "integer `" ++ toString n ++ "`"
  | real x => "floating point `" ++ Decimal.text x ++ "`"
  | text s => "string " ++ Text.quoted s
  | list _ => "sequence"
  | record _ => "map"

/-! ### Mismatches -/

inductive Mismatch where
  | kind (found : Value) (expected : String)
  | range (found : Int) (expected : String)
  | length (found : Nat) (expected : String)
  | missingField (name : String)
  deriving Repr, Inhabited

def Mismatch.message : Mismatch → String
  | kind found expected => "invalid type: " ++ found.describe ++ ", expected " ++ expected
  | range found expected =>
    "invalid value: integer `" ++ toString found ++ "`, expected " ++ expected
  | length found expected => "invalid length " ++ toString found ++ ", expected " ++ expected
  | missingField name => "missing field `" ++ name ++ "`"

/-! ### Readers -/

abbrev Reader (α : Type) := Value → Except Mismatch α

def asText : Reader String
  | text s => .ok s
  | v => .error (.kind v "a string")

def asFlag : Reader Bool
  | flag b => .ok b
  | v => .error (.kind v "a boolean")

/-- A whole number from `low` to `high`; `expected` names the range. -/
def asInteger (low high : Int) (expected : String) : Reader Int
  | integer n => if low ≤ n ∧ n ≤ high then .ok n else .error (.range n expected)
  | v => .error (.kind v expected)

def asInt64 : Reader Int := asInteger (-0x8000000000000000) 0x7fffffffffffffff "i64"

def asByte : Reader Int := asInteger 0 255 "u8"

/-- A list, all of whose items `item` reads; the first item that it refuses is reported. -/
def asList {α : Type} (item : Reader α) : Reader (List α)
  | list items => items.mapM item
  | v => .error (.kind v "a sequence")

/-- `null`, or what `item` reads. -/
def asOptional {α : Type} (item : Reader α) : Reader (Option α)
  | null => .ok none
  | v => (item v).map some

/-- The one field of the records called `title`. A list of one item is such a record too; other
fields of a record do not count. -/
def asField {α : Type} (title name : String) (item : Reader α) : Reader α
  | record fields =>
    match fields.lookup name with
    | some v => item v
    | none => .error (.missingField name)
  | list [] => .error (.length 0 ("struct " ++ title ++ " with 1 element"))
  | list (v :: rest) => do
    let a ← item v
    if rest.isEmpty then pure a
    else throw (.length (rest.length + 1) "fewer elements in array")
  | v => .error (.kind v ("struct " ++ title))

end Value

end ViewLoop
