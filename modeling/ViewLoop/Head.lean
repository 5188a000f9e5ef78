import ViewLoop.Node

/-!
# Head entries

The entries of a document's head and the changes between two lists of them. An entry is known by
its key; an entry whose key stays keeps its place and is updated there.
-/

namespace ViewLoop

inductive HeadEntry where
  | metadata (name content : String)
  | property (name content : String)
  | link (rel href : String)
  | script (src : String)
  | base (href : String)
  deriving DecidableEq, Repr

def HeadEntry.key : HeadEntry → String
  | metadata name _ => "meta:" ++ name
  | property name _ => "property:" ++ name
  | link rel href => "link:" ++ rel ++ ":" ++ href
  | script src => "script:" ++ src
  | base _ => "base"

inductive HeadPatch where
  | add (entry : HeadEntry)
  /-- Puts an entry in the place of the one with its key. -/
  | update (entry : HeadEntry)
  | remove (entry : HeadEntry)
  deriving DecidableEq, Repr

def HeadPatch.entry : HeadPatch → HeadEntry
  | add e => e
  | update e => e
  | remove e => e

namespace HeadEntry

/-- The last entry with the given key. -/
def latest (entries : List HeadEntry) (key : String) : Option HeadEntry :=
  entries.reverse.find? fun e => e.key == key

/-- The changes for the new entries in their order, and the keys they settle. A key is compared
with the old entries once: when it comes again, its entry counts as new. -/
def arrivals (old : List HeadEntry) (settled : List String) :
    List HeadEntry → List HeadPatch × List String
  | [] => ([], settled)
  | e :: rest =>
    match if e.key ∈ settled then none else latest old e.key with
    | none =>
      let r := arrivals old settled rest
      (.add e :: r.1, r.2)
    | some previous =>
      let r := arrivals old (e.key :: settled) rest
      (if previous = e then r.1 else .update e :: r.1, r.2)

/-- The removals of old entries whose key is not settled, each key once, in old order. -/
def departures (settled : List String) : List HeadEntry → List HeadPatch
  | [] => []
  | e :: rest =>
    if e.key ∈ settled then departures settled rest
    else .remove e :: departures (e.key :: settled) rest

/-- The changes from one list of entries to another: additions and updates in new order, then
removals in old order. -/
def diff (old new : List HeadEntry) : List HeadPatch :=
  let r := arrivals old [] new
  r.1 ++ departures r.2 old

end HeadEntry

end ViewLoop
