import ViewLoop.Proofs.Marks

/-!
# Where marks come from

Marks of an aligned tree are keys of the fresh one, numbers drawn on the way, or marks of the nodes
it was recognised in. The three do not mix, as what was drawn before lies below the supply
(`IdSupply.Below`), so marks that are supplied to different parts are distinct
(`Supplied.append`).
-/

namespace ViewLoop

/-- The mark is a key that the view chose. -/
def Mark.isKeyed : Mark → Bool
  | node x => x.isKeyed
  | handler _ => false

namespace IdSupply

/-- The second state of the supply comes after the first, or is the first. -/
structure Before (s s' : IdSupply) : Prop where
  nodes : s.nodes ≤ s'.nodes
  handlers : s.handlers ≤ s'.handlers

@[refl] theorem Before.refl (s : IdSupply) : s.Before s := ⟨Nat.le_refl _, Nat.le_refl _⟩

theorem Before.trans {s s' s'' : IdSupply} (h : s.Before s') (h' : s'.Before s'') : s.Before s'' :=
  ⟨Nat.le_trans h.nodes h'.nodes, Nat.le_trans h.handlers h'.handlers⟩

theorem before_mintNode (s : IdSupply) : s.Before s.mintNode.2 := ⟨Nat.le_succ _, Nat.le_refl _⟩

theorem before_mintHandler (s : IdSupply) : s.Before s.mintHandler.2 :=
  ⟨Nat.le_refl _, Nat.le_succ _⟩

/-- The mark was not drawn later than the state. -/
def Below (s : IdSupply) : Mark → Prop
  | .node (.generated n) => n ≤ s.nodes
  | .node _ => True
  | .handler h => h.val ≤ s.handlers

/-- The mark was drawn between the two states. -/
def Minted (s s' : IdSupply) : Mark → Prop
  | .node (.generated n) => s.nodes < n ∧ n ≤ s'.nodes
  | .node _ => False
  | .handler h => s.handlers < h.val ∧ h.val ≤ s'.handlers

variable {s s' t t' : IdSupply} {x : Mark}

theorem Below.mono (h : s.Below x) (hs : s.Before s') : s'.Below x := by
  cases x with
  | node y =>
    cases y with
    | generated n => exact Nat.le_trans h hs.nodes
    | unassigned => exact trivial
    | keyed k => exact trivial
  | handler y => exact Nat.le_trans h hs.handlers

theorem Minted.below (h : Minted s s' x) : s'.Below x := by
  cases x with
  | node y =>
    cases y with
    | generated n => exact h.2
    | unassigned => exact h.elim
    | keyed k => exact h.elim
  | handler y => exact h.2

theorem Minted.not_below (h : Minted s s' x) : ¬s.Below x := by
  cases x with
  | node y =>
    cases y with
    | generated n => exact Nat.not_le_of_gt h.1
    | unassigned => exact h.elim
    | keyed k => exact h.elim
  | handler y => exact Nat.not_le_of_gt h.1

theorem Minted.isKeyed_eq (h : Minted s s' x) : x.isKeyed = false := by
  cases x with
  | node y =>
    cases y with
    | generated n => rfl
    | unassigned => exact h.elim
    | keyed k => exact h.elim
  | handler y => rfl

theorem Minted.of_below {s₁ : IdSupply} (h : Minted s₁ t x) (hs : s.Before s₁) (hb : s'.Below x) :
    Minted s s' x := by
  cases x with
  | node y =>
    cases y with
    | generated n => exact ⟨Nat.lt_of_le_of_lt hs.nodes h.1, hb⟩
    | unassigned => exact h.elim
    | keyed k => exact h.elim
  | handler y => exact ⟨Nat.lt_of_le_of_lt hs.handlers h.1, hb⟩

theorem Minted.widen (h : Minted s s' x) (ht : t.Before s) (ht' : s'.Before t') :
    Minted t t' x :=
  h.of_below ht (h.below.mono ht')

theorem minted_mintNode (s : IdSupply) : Minted s s.mintNode.2 (.node s.mintNode.1) :=
  ⟨Nat.lt_succ_self _, Nat.le_refl _⟩

theorem minted_mintHandler (s : IdSupply) : Minted s s.mintHandler.2 (.handler s.mintHandler.1) :=
  ⟨Nat.lt_succ_self _, Nat.le_refl _⟩

end IdSupply

open IdSupply

/-- The mark is one of the keys, was drawn between the two states, or is one of the old marks and
not a key. -/
def Origin (keys : List NodeId) (old : List Mark) (s s' : IdSupply) (x : Mark) : Prop :=
  (∃ k ∈ keys, k.isKeyed = true ∧ x = .node k) ∨ Minted s s' x ∨ x ∈ old ∧ x.isKeyed = false

/-- Distinct marks of known origin. -/
structure Supplied (keys : List NodeId) (old : List Mark) (s s' : IdSupply) (l : List Mark) :
    Prop where
  before : s.Before s'
  nodup : l.Nodup
  origin : ∀ x ∈ l, Origin keys old s s' x

namespace Supplied

variable {keys keys' : List NodeId} {old old' l l' : List Mark} {s s' s'' : IdSupply}

theorem nil (s : IdSupply) : Supplied [] [] s s [] :=
  ⟨.refl s, List.nodup_nil, fun _ h => absurd h List.not_mem_nil⟩

theorem mono (h : Supplied keys old s s' l) (hk : keys ⊆ keys') (ho : old ⊆ old') :
    Supplied keys' old' s s' l := by
  refine ⟨h.before, h.nodup, fun x hx => ?_⟩
  rcases h.origin x hx with ⟨k, hkm, hkey⟩ | hm | ⟨hxo, hkey⟩
  · exact Or.inl ⟨k, hk hkm, hkey⟩
  · exact Or.inr (Or.inl hm)
  · exact Or.inr (Or.inr ⟨ho hxo, hkey⟩)

/-- Marks that are supplied one after another, from different keys and different old marks. -/
theorem append (h : Supplied keys old s s' l) (h' : Supplied keys' old' s' s'' l')
    (hkeys : ∀ k ∈ keys, k.isKeyed = true → k ∉ keys')
    (hold : ∀ x ∈ old, x.isKeyed = false → x ∉ old')
    (hbelow : ∀ x ∈ old, s.Below x) (hbelow' : ∀ x ∈ old', s.Below x) :
    Supplied (keys ++ keys') (old ++ old') s s'' (l ++ l') := by
  have hapart : ∀ x ∈ l, x ∉ l' := by
    intro x hx hx'
    rcases h.origin x hx with ⟨k, hk, hkk, rfl⟩ | hm | ⟨hxo, hkey⟩
    · rcases h'.origin _ hx' with ⟨k', hk', -, he⟩ | hm' | ⟨-, hkey'⟩
      · exact hkeys k hk hkk (Mark.node.inj he ▸ hk')
      · exact absurd (hm'.isKeyed_eq.symm.trans hkk) (by simp)
      · exact absurd (hkey'.symm.trans hkk) (by simp)
    · rcases h'.origin _ hx' with ⟨k', -, hkk', rfl⟩ | hm' | ⟨hxo', -⟩
      · exact absurd (hm.isKeyed_eq.symm.trans hkk') (by simp)
      · exact hm'.not_below hm.below
      · exact hm.not_below (hbelow' x hxo')
    · rcases h'.origin _ hx' with ⟨k', -, hkk', rfl⟩ | hm' | ⟨hxo', -⟩
      · exact absurd (hkey.symm.trans hkk') (by simp)
      · exact hm'.not_below ((hbelow x hxo).mono h.before)
      · exact hold x hxo hkey hxo'
  refine ⟨h.before.trans h'.before, ?_, fun x hx => ?_⟩
  · exact List.nodup_append.mpr ⟨h.nodup, h'.nodup, fun x hx y hy hxy => hapart x hx (hxy ▸ hy)⟩
  · rcases List.mem_append.mp hx with hx | hx
    · rcases h.origin x hx with ⟨k, hk, hkey⟩ | hm | ⟨hxo, hkey⟩
      · exact Or.inl ⟨k, List.mem_append_left _ hk, hkey⟩
      · exact Or.inr (Or.inl (hm.widen (.refl s) h'.before))
      · exact Or.inr (Or.inr ⟨List.mem_append_left _ hxo, hkey⟩)
    · rcases h'.origin x hx with ⟨k, hk, hkey⟩ | hm | ⟨hxo, hkey⟩
      · exact Or.inl ⟨k, List.mem_append_right _ hk, hkey⟩
      · exact Or.inr (Or.inl (hm.widen h.before (.refl s'')))
      · exact Or.inr (Or.inr ⟨List.mem_append_right _ hxo, hkey⟩)

/-- What is supplied lies below the state after it, if the old marks do. -/
theorem below (h : Supplied keys old s s' l) (hbelow : ∀ x ∈ old, s.Below x) :
    ∀ x ∈ l, s'.Below x := by
  intro x hx
  rcases h.origin x hx with ⟨k, -, hkey, rfl⟩ | hm | ⟨hxo, -⟩
  · cases k with
    | keyed k => exact trivial
    | generated n => exact absurd hkey (by simp)
    | unassigned => exact trivial
  · exact hm.below
  · exact (hbelow x hxo).mono h.before

end Supplied

end ViewLoop
