import Mathlib.Data.List.Basic
import ViewLoop.Difference
import ViewLoop.Proofs.Subtrees

/-!
# Matched siblings

Which children of an old and a new element are compared with each other, when no identity occurs
twice among siblings: `Difference.couples` pairs them in new order and `Difference.partners` in old
order. Which children go, come and stay is said in terms of identities alone, and the changes of
the children that stay are those of the couples one after another (`Difference.forest_eq_join`).
-/

namespace ViewLoop

namespace Node

variable {P : Type}

theorem find?_id_eq_some_iff {cs : List (Node P)} (h : (cs.map id).Nodup) {x : NodeId}
    {c : Node P} : cs.find? (fun d => d.id = x) = some c ↔ c ∈ cs ∧ c.id = x := by
  constructor
  · intro hc
    exact ⟨List.mem_of_find?_eq_some hc, by simpa using List.find?_some hc⟩
  · rintro ⟨hc, rfl⟩
    cases hf : cs.find? fun d => d.id = c.id with
    | none => exact absurd (List.find?_eq_none.mp hf c hc) (by simp)
    | some d =>
      have hd : d.id = c.id := by simpa using List.find?_some hf
      exact congrArg some (List.inj_on_of_nodup_map h (List.mem_of_find?_eq_some hf) hc hd)

theorem find?_id_eq_none_iff {cs : List (Node P)} {x : NodeId} :
    cs.find? (fun d => d.id = x) = none ↔ x ∉ cs.map id := by
  rw [List.find?_eq_none, List.mem_map]
  constructor
  · rintro h ⟨c, hc, rfl⟩
    exact h c hc (by simp)
  · intro h c hc
    have : c.id ≠ x := fun e => h ⟨c, hc, e⟩
    simpa using this

end Node

namespace Changes

variable {P : Type}

def join (l : List (Changes P)) : Changes P :=
  ⟨l.flatMap removals, l.flatMap replacements, l.flatMap updates⟩

theorem join_cons (c : Changes P) (l : List (Changes P)) : join (c :: l) = c ++ join l := rfl

end Changes

namespace Difference

variable {P : Type} {cs ds : List (Node P)}

/-! ### Couples -/

/-- The old and new children that have an identity in common, in new order. -/
def couples (cs ds : List (Node P)) : List (Node P × Node P) :=
  ds.filterMap fun d => (cs.find? fun c => c.id = d.id).map (·, d)

/-- The old and new children that have an identity in common, in old order. -/
def partners (cs ds : List (Node P)) : List (Node P × Node P) :=
  cs.filterMap fun c => (ds.find? fun d => d.id = c.id).map (c, ·)

theorem mem_couples_iff (hc : (cs.map Node.id).Nodup) {q : Node P × Node P} :
    q ∈ couples cs ds ↔ q.1 ∈ cs ∧ q.2 ∈ ds ∧ q.1.id = q.2.id := by
  rw [couples, List.mem_filterMap]
  constructor
  · rintro ⟨d, hd, hq⟩
    obtain ⟨c, hf, rfl⟩ := Option.map_eq_some_iff.mp hq
    obtain ⟨hm, hid⟩ := (Node.find?_id_eq_some_iff hc).mp hf
    exact ⟨hm, hd, hid⟩
  · rintro ⟨h1, h2, hid⟩
    exact ⟨q.2, h2, Option.map_eq_some_iff.mpr
      ⟨q.1, (Node.find?_id_eq_some_iff hc).mpr ⟨h1, hid⟩, rfl⟩⟩

theorem mem_partners_iff (hd : (ds.map Node.id).Nodup) {q : Node P × Node P} :
    q ∈ partners cs ds ↔ q.1 ∈ cs ∧ q.2 ∈ ds ∧ q.1.id = q.2.id := by
  rw [partners, List.mem_filterMap]
  constructor
  · rintro ⟨c, hc, hq⟩
    obtain ⟨d, hf, rfl⟩ := Option.map_eq_some_iff.mp hq
    obtain ⟨hm, hid⟩ := (Node.find?_id_eq_some_iff hd).mp hf
    exact ⟨hc, hm, hid.symm⟩
  · rintro ⟨h1, h2, hid⟩
    exact ⟨q.1, h1, Option.map_eq_some_iff.mpr
      ⟨q.2, (Node.find?_id_eq_some_iff hd).mpr ⟨h2, hid.symm⟩, rfl⟩⟩

theorem map_fst_partners (cs ds : List (Node P)) :
    (partners cs ds).map Prod.fst = cs.filter fun c => c.id ∈ ds.map Node.id := by
  induction cs with
  | nil => rfl
  | cons c cs ih =>
    rw [partners, List.filterMap_cons]
    cases hf : ds.find? fun d => d.id = c.id with
    | none =>
      have hc := Node.find?_id_eq_none_iff.mp hf
      rw [List.filter_cons_of_neg (by simpa using hc), ← ih]
      rfl
    | some d =>
      have hc : c.id ∈ ds.map Node.id := by
        have hid : d.id = c.id := by simpa using List.find?_some hf
        exact List.mem_map.mpr ⟨d, List.mem_of_find?_eq_some hf, hid⟩
      rw [List.filter_cons_of_pos (by simpa using hc), ← ih]
      rfl

theorem map_snd_couples (cs ds : List (Node P)) :
    (couples cs ds).map Prod.snd = ds.filter fun d => d.id ∈ cs.map Node.id := by
  induction ds with
  | nil => rfl
  | cons d ds ih =>
    rw [couples, List.filterMap_cons]
    cases hf : cs.find? fun c => c.id = d.id with
    | none =>
      have hd := Node.find?_id_eq_none_iff.mp hf
      rw [List.filter_cons_of_neg (by simpa using hd), ← ih]
      rfl
    | some c =>
      have hd : d.id ∈ cs.map Node.id := by
        have hid : c.id = d.id := by simpa using List.find?_some hf
        exact List.mem_map.mpr ⟨c, List.mem_of_find?_eq_some hf, hid⟩
      rw [List.filter_cons_of_pos (by simpa using hd), ← ih]
      rfl

theorem nodup_partners (hc : (cs.map Node.id).Nodup) :
    ((partners cs ds).map fun q => q.1.id).Nodup := by
  have h : (partners cs ds).map (fun q => q.1.id) = ((partners cs ds).map Prod.fst).map Node.id := by
    rw [List.map_map]
    rfl
  rw [h, map_fst_partners]
  exact hc.sublist (List.filter_sublist.map _)

theorem nodup_couples (hd : (ds.map Node.id).Nodup) : (couples cs ds).Nodup := by
  have h : ((couples cs ds).map Prod.snd).Nodup := by
    rw [map_snd_couples]
    exact (List.Nodup.of_map _ hd).filter _
  exact List.Nodup.of_map _ h

/-! ### Who goes, comes and stays -/

theorem departed_eq (ds : List (Node P)) {seen : List NodeId} (hc : (cs.map Node.id).Nodup)
    (hs : ∀ c ∈ cs, c.id ∉ seen) :
    departed ds seen cs = cs.filter fun c => c.id ∉ ds.map Node.id := by
  induction cs generalizing seen with
  | nil => rfl
  | cons c cs ih =>
    obtain ⟨hcs, hc⟩ := List.nodup_cons.mp hc
    have hseen : c.id ∉ seen := hs c List.mem_cons_self
    rw [departed]
    by_cases h : c.id ∈ ds.map Node.id
    · rw [if_neg (by simp [hseen, h]), List.filter_cons_of_neg (by simpa using h)]
      refine ih hc fun d hd hm => ?_
      rcases List.mem_cons.mp hm with e | hm
      · exact hcs (List.mem_map.mpr ⟨d, hd, e⟩)
      · exact hs d (List.mem_cons_of_mem _ hd) hm
    · rw [if_pos (Or.inr h), List.filter_cons_of_pos (by simpa using h),
        ih hc fun d hd => hs d (List.mem_cons_of_mem _ hd)]

theorem kept_eq {seen : List NodeId} (hd : (ds.map Node.id).Nodup)
    (hs : ∀ d ∈ ds, d.id ∉ seen) :
    kept cs seen ds = ((couples cs ds).map Prod.snd).map Node.id := by
  rw [map_snd_couples]
  induction ds generalizing seen with
  | nil => rfl
  | cons d ds ih =>
    obtain ⟨hds, hd⟩ := List.nodup_cons.mp hd
    have hseen : d.id ∉ seen := hs d List.mem_cons_self
    rw [kept]
    by_cases h : d.id ∈ cs.map Node.id
    · rw [if_neg (by simp [hseen, h]), List.filter_cons_of_pos (by simpa using h), List.map_cons]
      refine congrArg (d.id :: ·) (ih hd fun e he hm => ?_)
      rcases List.mem_cons.mp hm with h | hm
      · exact hds (List.mem_map.mpr ⟨e, he, h⟩)
      · exact hs e (List.mem_cons_of_mem _ he) hm
    · rw [if_pos (Or.inr h), List.filter_cons_of_neg (by simpa using h)]
      exact ih hd fun e he => hs e (List.mem_cons_of_mem _ he)

/-- Children that come in are those that no old child is coupled with, each at its place. -/
theorem arrived_cons {seen : List NodeId} {d : Node P} (hd : d.id ∉ seen) (index : Nat) :
    arrived cs seen index (d :: ds)
      = if d.id ∈ cs.map Node.id then arrived cs (d.id :: seen) (index + 1) ds
        else (index, d) :: arrived cs seen (index + 1) ds := by
  rw [arrived]
  by_cases h : d.id ∈ cs.map Node.id
  · rw [if_neg (by simp [hd, h]), if_pos h]
  · rw [if_pos (Or.inr h), if_neg h]

theorem forest_eq_join [DecidableEq P] {i : NodeId} {seen : List NodeId}
    (hd : (ds.map Node.id).Nodup) (hs : ∀ d ∈ ds, d.id ∉ seen) :
    forest i cs seen ds
      = Changes.join ((couples cs ds).map fun q => node (some i) q.1 q.2) := by
  induction ds generalizing seen with
  | nil => rfl
  | cons d ds ih =>
    obtain ⟨hds, hd⟩ := List.nodup_cons.mp hd
    rw [forest, if_neg (hs d List.mem_cons_self), couples, List.filterMap_cons]
    cases hf : cs.find? fun c => c.id = d.id with
    | none => exact ih hd fun e he => hs e (List.mem_cons_of_mem _ he)
    | some c =>
      rw [Option.map_some, List.map_cons, Changes.join_cons]
      refine congrArg (node (some i) c d ++ ·) (ih hd fun e he hm => ?_)
      rcases List.mem_cons.mp hm with h | hm
      · exact hds (List.mem_map.mpr ⟨e, he, h⟩)
      · exact hs e (List.mem_cons_of_mem _ he) hm

end Difference

end ViewLoop
