import Mathlib.Data.List.ReduceOption
import ViewLoop.Proofs.AlignedAttributes

/-!
# The steps of alignment

Which candidate a fresh child gets does not depend on what was drawn before it
(`Alignment.candidates`), so alignment is a walk over the fresh tree that threads the supply
through the children of each node. `Alignment.node_induct` is induction along that walk.
-/

namespace ViewLoop

namespace Alignment

variable {P : Type}

/-! ### Candidates -/

def Siblings.candidates (siblings : Siblings P) : List (Node P) → List (Option (Node P))
  | [] => []
  | c :: cs => (siblings.candidate c.id).1 :: (siblings.candidate c.id).2.candidates cs

/-- The candidates for the children of a fresh element, if it was recognised in one or not. -/
def candidates (siblings : Option (Siblings P)) (cs : List (Node P)) : List (Option (Node P)) :=
  match siblings with
  | some siblings => siblings.candidates cs
  | none => cs.map fun _ => none

/-- Siblings that are looked through: no identity occurs twice, and those to be taken without a
key are among them and have none. -/
structure Siblings.Sound (siblings : Siblings P) : Prop where
  nodup : (siblings.all.map Node.id).Nodup
  unkeyed : siblings.unkeyed.Sublist (siblings.all.filter fun c => !c.id.isKeyed)

theorem Siblings.sound_below {previous : Node P} (h : (previous.children.map Node.id).Nodup) :
    (Siblings.below previous).Sound := ⟨h, .refl _⟩

theorem Siblings.Sound.candidate {siblings : Siblings P} (h : siblings.Sound) (x : NodeId) :
    (siblings.candidate x).2.Sound := by
  rw [Siblings.candidate]
  split
  · exact h
  · exact ⟨h.nodup, (List.tail_sublist _).trans h.unkeyed⟩

theorem Siblings.all_candidate (siblings : Siblings P) (x : NodeId) :
    (siblings.candidate x).2.all = siblings.all := by
  rw [Siblings.candidate]
  split <;> rfl

/-- A candidate is one of the siblings; with a key, it has that of a fresh child, and without one,
it is one of those to be taken. -/
theorem Siblings.mem_candidates {siblings : Siblings P} {cs : List (Node P)} {p : Node P}
    (h : siblings.Sound) (hp : some p ∈ siblings.candidates cs) :
    p ∈ siblings.all
      ∧ ((p.id.isKeyed = true ∧ p.id ∈ cs.map Node.id)
        ∨ p.id.isKeyed = false ∧ p ∈ siblings.unkeyed) := by
  induction cs generalizing siblings with
  | nil => exact absurd hp List.not_mem_nil
  | cons c cs ih =>
    rw [candidates, List.mem_cons] at hp
    rcases hp with hp | hp
    · rw [candidate] at hp
      split at hp
      · rename_i hk
        have hid : p.id = c.id := by simpa using List.find?_some hp.symm
        exact ⟨List.mem_of_find?_eq_some hp.symm, Or.inl ⟨hid ▸ hk, hid ▸ List.mem_cons_self⟩⟩
      · have hm := List.mem_of_mem_head? (Option.mem_def.mpr hp.symm)
        obtain ⟨hall, hkey⟩ := List.mem_filter.mp (h.unkeyed.subset hm)
        exact ⟨hall, Or.inr ⟨by simpa using hkey, hm⟩⟩
    · obtain ⟨hall, hrest⟩ := ih (h.candidate c.id) hp
      rw [all_candidate] at hall
      refine ⟨hall, hrest.imp (fun hk => ⟨hk.1, List.mem_cons_of_mem _ hk.2⟩) fun hk => ⟨hk.1, ?_⟩⟩
      have hm := hk.2
      rw [candidate] at hm
      split at hm
      · exact hm
      · exact List.mem_of_mem_tail hm

/-- A sibling that was offered to a child is not offered to one after it: with a key, that would
need a second fresh child of the key, and without one it is no longer among those to be taken. -/
theorem Siblings.not_mem_later {siblings : Siblings P} {c p : Node P} {cs : List (Node P)}
    (h : siblings.Sound) (hc : (((c :: cs).map Node.id).filter NodeId.isKeyed).Nodup)
    (hp : (siblings.candidate c.id).1 = some p) :
    some p ∉ (siblings.candidate c.id).2.candidates cs := by
  intro hm
  obtain ⟨-, hlater⟩ := mem_candidates (h.candidate c.id) hm
  rw [candidate] at hp hlater
  split at hp
  · rename_i hk
    have hid : p.id = c.id := by simpa using List.find?_some hp
    rw [List.map_cons, List.filter_cons_of_pos hk, List.nodup_cons] at hc
    rcases hlater with ⟨-, hmem⟩ | ⟨hno, -⟩
    · exact hc.1 (List.mem_filter.mpr ⟨hid ▸ hmem, hk⟩)
    · rw [hid, hk] at hno
      exact nomatch hno
  · rename_i hk
    rw [if_neg hk] at hlater
    obtain ⟨tail, htail⟩ := List.head?_eq_some_iff.mp hp
    have hfirst : p ∈ siblings.unkeyed := htail ▸ List.mem_cons_self
    have hnodup : siblings.unkeyed.Nodup :=
      ((List.Nodup.of_map _ h.nodup).filter _).sublist h.unkeyed
    rcases hlater with ⟨hyes, -⟩ | ⟨-, hmem⟩
    · have hno := (List.mem_filter.mp (h.unkeyed.subset hfirst)).2
      rw [hyes] at hno
      exact nomatch hno
    · rw [htail] at hnodup hmem
      exact (List.nodup_cons.mp hnodup).1 hmem

theorem Siblings.nodup_candidates {siblings : Siblings P} {cs : List (Node P)} (h : siblings.Sound)
    (hc : ((cs.map Node.id).filter NodeId.isKeyed).Nodup) :
    ((siblings.candidates cs).reduceOption).Nodup := by
  induction cs generalizing siblings with
  | nil => exact List.nodup_nil
  | cons c cs ih =>
    have hrest := ih (h.candidate c.id) (hc.sublist ((List.sublist_cons_self _ _).filter _))
    rw [candidates]
    cases hp : (siblings.candidate c.id).1 with
    | none => rwa [List.reduceOption_cons_of_none]
    | some p =>
      rw [List.reduceOption_cons_of_some]
      refine List.nodup_cons.mpr ⟨fun hm => ?_, hrest⟩
      exact not_mem_later h hc hp (List.reduceOption_mem_iff.mp hm)

/-! ### Threads -/

/-- Siblings are aligned one after another, each with its candidate and with the supply that the
one before it left. -/
inductive Threaded (R : Option (Node P) → IdSupply → Node P → Node P → IdSupply → Prop) :
    List (Option (Node P)) → IdSupply → List (Node P) → List (Node P) → IdSupply → Prop
  | nil (s : IdSupply) : Threaded R [] s [] [] s
  | cons {o : Option (Node P)} {os : List (Option (Node P))} {s s₁ s' : IdSupply} {c t : Node P}
      {cs ts : List (Node P)} (first : R o s c t s₁) (rest : Threaded R os s₁ cs ts s') :
      Threaded R (o :: os) s (c :: cs) (t :: ts) s'

variable {R : Option (Node P) → IdSupply → Node P → Node P → IdSupply → Prop}

theorem Threaded.before (hR : ∀ o s c t s', R o s c t s' → s.Before s')
    {os : List (Option (Node P))} {s s' : IdSupply} {cs ts : List (Node P)}
    (h : Threaded R os s cs ts s') : s.Before s' := by
  induction h with
  | nil => exact .refl _
  | cons first _ ih => exact (hR _ _ _ _ _ first).trans ih

/-- Every sibling comes from a fresh one and its candidate. -/
theorem Threaded.exists_of_mem (hR : ∀ o s c t s', R o s c t s' → s.Before s')
    {os : List (Option (Node P))} {s s' : IdSupply} {cs ts : List (Node P)}
    (h : Threaded R os s cs ts s') {t : Node P} (ht : t ∈ ts) :
    ∃ o ∈ os, ∃ c ∈ cs, ∃ s₁ s₂, s.Before s₁ ∧ R o s₁ c t s₂ := by
  induction h with
  | nil => exact absurd ht List.not_mem_nil
  | cons first _ ih =>
    rcases List.mem_cons.mp ht with rfl | ht
    · exact ⟨_, List.mem_cons_self, _, List.mem_cons_self, _, _, .refl _, first⟩
    · obtain ⟨o, ho, c, hc, s₁, s₂, hle, h⟩ := ih ht
      exact ⟨o, List.mem_cons_of_mem _ ho, c, List.mem_cons_of_mem _ hc, s₁, s₂,
        (hR _ _ _ _ _ first).trans hle, h⟩

theorem Threaded.map_eq {α : Type} {f : Node P → α} {os : List (Option (Node P))}
    {s s' : IdSupply} {cs ts : List (Node P)} (h : Threaded R os s cs ts s')
    (hf : ∀ o s c t s', c ∈ cs → R o s c t s' → f t = f c) : ts.map f = cs.map f := by
  induction h with
  | nil => rfl
  | cons first _ ih =>
    rw [List.map_cons, List.map_cons, hf _ _ _ _ _ List.mem_cons_self first,
      ih fun o s c t s' hc => hf o s c t s' (List.mem_cons_of_mem _ hc)]

theorem supply_warnRepeatedKey (seen : List NodeId) (x : NodeId) (s : State) :
    (warnRepeatedKey seen x s).supply = s.supply := by
  rw [warnRepeatedKey]
  split <;> rfl

theorem threaded_forest {cs : List (Node P)}
    (ih : ∀ c ∈ cs, ∀ o s, R o s.supply c (node o s c).1 (node o s c).2.supply)
    (siblings : Option (Siblings P)) (seen : List NodeId) (s : State) :
    Threaded R (candidates siblings cs) s.supply cs (forest siblings seen s cs).1
      (forest siblings seen s cs).2.supply := by
  induction cs generalizing siblings seen s with
  | nil => cases siblings <;> exact .nil _
  | cons c cs ihcs =>
    have hrest := ihcs fun d hd => ih d (List.mem_cons_of_mem _ hd)
    cases siblings with
    | none => exact .cons (ih c List.mem_cons_self none s) (hrest none seen _)
    | some siblings =>
      have hfirst := ih c List.mem_cons_self (siblings.candidate c.id).1
        (warnRepeatedKey seen c.id s)
      rw [supply_warnRepeatedKey] at hfirst
      exact .cons hfirst (hrest (some (siblings.candidate c.id).2) _ _)

/-- Induction along alignment. An element comes with the node it was recognised in, if any, and
with its children threaded. -/
theorem node_induct
    (text : ∀ o s i u, R o s.supply (.text i u)
      (.text (idFor (recognise o (.text i u)) i s).1 u)
      (idFor (recognise o (.text i u)) i s).2.supply)
    (element : ∀ o s i tag fresh cs ts s' r own kept,
      recognise o (.element i tag fresh cs) = r → idFor r i s = own →
      attributes own.1 ((r.map Node.attributes).getD []) fresh own.2 = kept →
      Threaded R (candidates (r.map Siblings.below) cs) kept.2.supply cs ts s' →
      R o s.supply (.element i tag fresh cs) (.element own.1 tag kept.1 ts) s')
    (o : Option (Node P)) (s : State) (fresh : Node P) :
    R o s.supply fresh (node o s fresh).1 (node o s fresh).2.supply := by
  induction fresh generalizing o s with
  | text i u => exact text o s i u
  | element i tag as cs ih =>
    refine element o s i tag as cs _ _ _ _ _ rfl rfl rfl ?_
    exact threaded_forest (fun c hc o s => ih c hc o s) _ _ _

/-! ### Recognised nodes -/

theorem recognised_same {o : Option (Node P)} {fresh p : Node P}
    (h : recognise o fresh = some p) : o = some p ∧ p.SameShape fresh
      ∧ p.id.isKeyed = fresh.id.isKeyed ∧ (fresh.id.isKeyed = true → p.id = fresh.id) := by
  obtain ⟨ho, hshape, hid⟩ := recognise_eq_some_iff.mp h
  refine ⟨ho, hshape, ?_, fun hk => ?_⟩
  · split at hid
    · rw [hid]
    · rename_i hk
      rw [hid]
      exact (Bool.not_eq_true _ ▸ hk).symm
  · rwa [if_pos hk] at hid

/-- The identity of an aligned node: its key, that of the node it was recognised in, or a new
one. -/
theorem idFor_cases (o : Option (Node P)) (fresh : Node P) (s : State) :
    (fresh.id.isKeyed = true ∧ idFor (recognise o fresh) fresh.id s = (fresh.id, s))
      ∨ (fresh.id.isKeyed = false ∧ ∃ p, recognise o fresh = some p
        ∧ idFor (recognise o fresh) fresh.id s = (p.id, s))
      ∨ fresh.id.isKeyed = false ∧ recognise o fresh = none
        ∧ idFor (recognise o fresh) fresh.id s
          = (s.supply.mintNode.1, { s with supply := s.supply.mintNode.2 }) := by
  cases hk : fresh.id.isKeyed with
  | true => exact Or.inl ⟨rfl, if_pos hk⟩
  | false =>
    cases hr : recognise o fresh with
    | some p => exact Or.inr (Or.inl ⟨rfl, p, rfl, if_neg (by simp [hk])⟩)
    | none => exact Or.inr (Or.inr ⟨rfl, rfl, if_neg (by simp [hk])⟩)

theorem idFor_of_recognised {o : Option (Node P)} {fresh p : Node P} (s : State)
    (h : recognise o fresh = some p) : idFor (some p) fresh.id s = (p.id, s) := by
  obtain ⟨-, -, -, hid⟩ := recognised_same h
  rw [idFor]
  split
  · rename_i hk
    rw [hid hk]
  · rfl

end Alignment

end ViewLoop
