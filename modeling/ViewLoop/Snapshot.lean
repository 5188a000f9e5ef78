import ViewLoop.Node
import ViewLoop.Text.Quoted

/-!
# Snapshots

A tree written down line by line, for comparing what is shown with what should be. A line stands
for a node and is indented by its depth; the attributes of an element are sorted, and handlers
show their event only. Identities of nodes and of handlers can be left out.
-/

namespace ViewLoop

structure SnapshotOptions where
  ignoreIds : Bool := true
  ignoreHandlerIds : Bool := true
  deriving DecidableEq, Repr

def SnapshotOptions.full : SnapshotOptions := { ignoreIds := false, ignoreHandlerIds := false }

namespace Snapshot

variable {P Q : Type}

def attributeText (options : SnapshotOptions) : Attribute P → String
  | .plain name value => name ++ "=" ++ Text.quoted value
  | .handler h =>
    if options.ignoreHandlerIds then "on" ++ h.event
    else "on" ++ h.event ++ "[" ++ h.id.token ++ "]"

def identity (options : SnapshotOptions) (id : NodeId) : String :=
  if options.ignoreIds then "" else " #" ++ id.token

def indent (depth : Nat) : String := String.ofList (List.replicate (2 * depth) ' ')

def sorted (attributes : List String) : List String := attributes.mergeSort fun a b => a ≤ b

def attributesText (options : SnapshotOptions) (attributes : List (Attribute P)) : String :=
  ((sorted (attributes.map (attributeText options))).map (" " ++ ·)).foldr (· ++ ·) ""

mutual

def linesAt (options : SnapshotOptions) (depth : Nat) : Node P → List String
  | .element id tag attributes children =>
    (indent depth ++ "<" ++ tag ++ identity options id ++ attributesText options attributes ++ ">")
      :: forestLinesAt options (depth + 1) children
  | .text id s => [indent depth ++ Text.quoted s ++ identity options id]

def forestLinesAt (options : SnapshotOptions) (depth : Nat) : List (Node P) → List String
  | [] => []
  | c :: cs => linesAt options depth c ++ forestLinesAt options depth cs

end

def lines (options : SnapshotOptions) (n : Node P) : List String := linesAt options 0 n

/-- The first line on which two snapshots differ, with both trees. -/
structure Mismatch where
  line : Nat
  expected : List String
  actual : List String
  deriving DecidableEq, Repr

def firstDifference : List String → List String → Option Nat
  | [], [] => none
  | a :: as, b :: bs => if a = b then (firstDifference as bs).map (· + 1) else some 0
  | _, _ => some 0

def compare (options : SnapshotOptions) (expected : Node P) (actual : Node Q) :
    Except Mismatch Unit :=
  let e := lines options expected
  let a := lines options actual
  match firstDifference e a with
  | none => .ok ()
  | some line => .error ⟨line, e, a⟩

/-- A line of a snapshot, or a mark past its end. -/
def lineOrEnd (lines : List String) (line : Nat) : String := lines[line]?.getD "<end>"

def Mismatch.message (m : Mismatch) : String :=
  "tree mismatch at line " ++ toString (m.line + 1)
    ++ "\nexpected: " ++ lineOrEnd m.expected m.line
    ++ "\nactual:   " ++ lineOrEnd m.actual m.line
    ++ "\nexpected tree:\n" ++ "\n".intercalate m.expected
    ++ "\nactual tree:\n" ++ "\n".intercalate m.actual ++ "\n"

theorem firstDifference_eq_none_iff (as bs : List String) :
    firstDifference as bs = none ↔ as = bs := by
  induction as generalizing bs with
  | nil => cases bs <;> simp [firstDifference]
  | cons a as ih =>
    cases bs with
    | nil => simp [firstDifference]
    | cons b bs =>
      by_cases h : a = b
      · simp [firstDifference, h, ih]
      · simp [firstDifference, h]

end Snapshot

end ViewLoop
