/-!
# Commands

What a program asks for besides a new model: navigation, and effects of its own that an executor
runs. Commands are sequenced by nesting them; `Command.leaves` is the sequence that a nest stands
for, and `Command.sequence` builds the least nest with given leaves.
-/

namespace ViewLoop

inductive Command (E : Type) where
  | none
  | batch (commands : List (Command E))
  | pushUrl (url : String)
  /-- Goes to an address in the place of the current history entry. -/
  | replaceUrl (url : String)
  | loadUrl (url : String)
  | effect (e : E)
  deriving Repr, Inhabited

namespace Command

variable {E : Type}

def isNone : Command E → Bool
  | none => true
  | _ => false

mutual

/-- The commands of a nest that are neither empty nor sequences, from left to right. -/
def leaves : Command E → List (Command E)
  | none => []
  | batch commands => forestLeaves commands
  | pushUrl url => [pushUrl url]
  | replaceUrl url => [replaceUrl url]
  | loadUrl url => [loadUrl url]
  | effect e => [effect e]

/-- The leaves of a list of commands, from left to right. -/
def forestLeaves : List (Command E) → List (Command E)
  | [] => []
  | c :: cs => c.leaves ++ forestLeaves cs

end

/-- The command that runs the leaves of `commands` one after another: empty without leaves, a
single leaf by itself. -/
def sequence (commands : List (Command E)) : Command E :=
  match forestLeaves commands with
  | [] => none
  | [c] => c
  | cs => batch cs

/-- A command that is neither empty nor a sequence. -/
def IsLeaf : Command E → Prop
  | none => False
  | batch _ => False
  | pushUrl _ => True
  | replaceUrl _ => True
  | loadUrl _ => True
  | effect _ => True

theorem IsLeaf.leaves_eq {c : Command E} (h : c.IsLeaf) : c.leaves = [c] := by
  cases c with
  | none => exact h.elim
  | batch commands => exact h.elim
  | pushUrl url => rfl
  | replaceUrl url => rfl
  | loadUrl url => rfl
  | effect e => rfl

mutual

theorem isLeaf_of_mem_leaves {c : Command E} : ∀ d : Command E, c ∈ d.leaves → c.IsLeaf
  | none, h => by simp [leaves] at h
  | batch commands, h => isLeaf_of_mem_forestLeaves commands (by simpa [leaves] using h)
  | pushUrl url, h => by
    obtain rfl : c = pushUrl url := by simpa [leaves] using h
    trivial
  | replaceUrl url, h => by
    obtain rfl : c = replaceUrl url := by simpa [leaves] using h
    trivial
  | loadUrl url, h => by
    obtain rfl : c = loadUrl url := by simpa [leaves] using h
    trivial
  | effect e, h => by
    obtain rfl : c = effect e := by simpa [leaves] using h
    trivial

theorem isLeaf_of_mem_forestLeaves {c : Command E} :
    ∀ ds : List (Command E), c ∈ forestLeaves ds → c.IsLeaf
  | [], h => by simp [forestLeaves] at h
  | d :: ds, h => by
    simp only [forestLeaves, List.mem_append] at h
    rcases h with h | h
    · exact isLeaf_of_mem_leaves d h
    · exact isLeaf_of_mem_forestLeaves ds h

end

theorem leaves_subset {c d : Command E} (h : d ∈ c.leaves) : d.leaves ⊆ c.leaves := by
  rw [(isLeaf_of_mem_leaves c h).leaves_eq]
  exact List.cons_subset.mpr ⟨h, List.nil_subset _⟩

mutual

def decEq [DecidableEq E] : (a b : Command E) → Decidable (a = b)
  | none, none => isTrue rfl
  | batch as, batch bs =>
    match decEqForest as bs with
    | isTrue h => isTrue (by rw [h])
    | isFalse h => isFalse (by simp [h])
  | pushUrl u, pushUrl v => decidable_of_decidable_of_iff (p := u = v) (by simp)
  | replaceUrl u, replaceUrl v => decidable_of_decidable_of_iff (p := u = v) (by simp)
  | loadUrl u, loadUrl v => decidable_of_decidable_of_iff (p := u = v) (by simp)
  | effect d, effect e => decidable_of_decidable_of_iff (p := d = e) (by simp)
  | none, batch _ | none, pushUrl _ | none, replaceUrl _ | none, loadUrl _ | none, effect _
  | batch _, none | batch _, pushUrl _ | batch _, replaceUrl _ | batch _, loadUrl _
  | batch _, effect _
  | pushUrl _, none | pushUrl _, batch _ | pushUrl _, replaceUrl _ | pushUrl _, loadUrl _
  | pushUrl _, effect _
  | replaceUrl _, none | replaceUrl _, batch _ | replaceUrl _, pushUrl _
  | replaceUrl _, loadUrl _ | replaceUrl _, effect _
  | loadUrl _, none | loadUrl _, batch _ | loadUrl _, pushUrl _ | loadUrl _, replaceUrl _
  | loadUrl _, effect _
  | effect _, none | effect _, batch _ | effect _, pushUrl _ | effect _, replaceUrl _
  | effect _, loadUrl _ => isFalse nofun

def decEqForest [DecidableEq E] : (as bs : List (Command E)) → Decidable (as = bs)
  | [], [] => isTrue rfl
  | a :: as, b :: bs =>
    match decEq a b, decEqForest as bs with
    | isTrue h, isTrue k => isTrue (by rw [h, k])
    | isFalse h, _ => isFalse (by simp [h])
    | _, isFalse k => isFalse (by simp [k])
  | [], _ :: _ => isFalse nofun
  | _ :: _, [] => isFalse nofun

end

instance [DecidableEq E] : DecidableEq (Command E) := decEq

end Command

end ViewLoop
