import ViewLoop.Proofs.Carried

/-!
# First attributes

An element may carry several attributes of one key. Differences and look-ups only know the first of
them (`Difference.firsts`), so to them an element is what is left of it when the others are trimmed
away (`Attribute.trim`). Trimming can also leave out single keys of single elements altogether:
those that were removed there once, of which more may have come to light.

What a patch does to the attributes of an element, it does to the trimmed ones: `trim_put`,
`trim_concat`, `trim_drop`.
-/

namespace ViewLoop

variable {P Q : Type}

namespace Difference

variable {as : List (Attribute P)} {seen : List AttributeKey} {k : AttributeKey}

/-! ### First attributes -/

theorem firsts_cons_of_mem {a : Attribute P} (h : a.key ∈ seen) :
    firsts seen (a :: as) = firsts seen as := by
  rw [firsts, if_pos h]

theorem firsts_cons_of_not_mem {a : Attribute P} (h : a.key ∉ seen) :
    firsts seen (a :: as) = a :: firsts (a.key :: seen) as := by
  rw [firsts, if_neg h]

theorem withKey_cons (a : Attribute P) (as : List (Attribute P)) (k : AttributeKey) :
    withKey (a :: as) k = if a.key = k then some a else withKey as k := by
  unfold withKey
  by_cases h : a.key = k <;> simp [h]

/-- The first attribute of a key that was not seen stays the first. -/
theorem withKey_firsts (h : k ∉ seen) : withKey (firsts seen as) k = withKey as k := by
  induction as generalizing seen with
  | nil => rfl
  | cons a as ih =>
    by_cases ha : a.key ∈ seen
    · have hne : a.key ≠ k := fun e => h (e ▸ ha)
      rw [firsts_cons_of_mem ha, ih h, withKey_cons, if_neg hne]
    · rw [firsts_cons_of_not_mem ha, withKey_cons, withKey_cons]
      split
      · rfl
      · rename_i hne
        exact ih fun hm => (List.mem_cons.mp hm).elim (fun e => hne e.symm) h

theorem key_not_mem_of_mem_firsts {a : Attribute P} (h : a ∈ firsts seen as) : a.key ∉ seen := by
  induction as generalizing seen with
  | nil => exact absurd h List.not_mem_nil
  | cons b as ih =>
    by_cases hb : b.key ∈ seen
    · rw [firsts_cons_of_mem hb] at h
      exact ih h
    · rw [firsts_cons_of_not_mem hb, List.mem_cons] at h
      rcases h with rfl | h
      · exact hb
      · exact fun hm => ih h (List.mem_cons_of_mem _ hm)

theorem nodup_keys_firsts (seen : List AttributeKey) (as : List (Attribute P)) :
    ((firsts seen as).map Attribute.key).Nodup := by
  induction as generalizing seen with
  | nil => exact List.nodup_nil
  | cons a as ih =>
    by_cases ha : a.key ∈ seen
    · rw [firsts_cons_of_mem ha]
      exact ih seen
    · rw [firsts_cons_of_not_mem ha, List.map_cons, List.nodup_cons]
      refine ⟨fun hm => ?_, ih _⟩
      obtain ⟨b, hb, hkey⟩ := List.mem_map.mp hm
      exact key_not_mem_of_mem_firsts hb (hkey ▸ List.mem_cons_self)

theorem map_firsts (f : P → Q) (seen : List AttributeKey) (as : List (Attribute P)) :
    (firsts seen as).map (Attribute.map f) = firsts seen (as.map (Attribute.map f)) := by
  induction as generalizing seen with
  | nil => rfl
  | cons a as ih =>
    rw [List.map_cons]
    by_cases ha : a.key ∈ seen
    · rw [firsts_cons_of_mem ha, firsts_cons_of_mem (by rwa [Attribute.key_map]), ih]
    · rw [firsts_cons_of_not_mem ha, firsts_cons_of_not_mem (by rwa [Attribute.key_map]),
        List.map_cons, ih, Attribute.key_map]

theorem withKey_map (f : P → Q) (as : List (Attribute P)) (k : AttributeKey) :
    withKey (as.map (Attribute.map f)) k = (withKey as k).map (Attribute.map f) := by
  induction as with
  | nil => rfl
  | cons a as ih =>
    rw [List.map_cons, withKey_cons, withKey_cons, Attribute.key_map, ih]
    split <;> rfl

/-- What was seen of keys that do not occur makes no difference. -/
theorem firsts_congr {seen' : List AttributeKey}
    (h : ∀ a ∈ as, a.key ∈ seen ↔ a.key ∈ seen') : firsts seen as = firsts seen' as := by
  induction as generalizing seen seen' with
  | nil => rfl
  | cons a as ih =>
    have htail : ∀ b ∈ as, b.key ∈ seen ↔ b.key ∈ seen' :=
      fun b hb => h b (List.mem_cons_of_mem _ hb)
    by_cases ha : a.key ∈ seen
    · rw [firsts_cons_of_mem ha, firsts_cons_of_mem ((h a List.mem_cons_self).mp ha), ih htail]
    · rw [firsts_cons_of_not_mem ha,
        firsts_cons_of_not_mem (mt (h a List.mem_cons_self).mpr ha)]
      congr 1
      exact ih fun b hb => by rw [List.mem_cons, List.mem_cons, htail b hb]

/-- Whole keys are left out before or after. -/
theorem firsts_filter (q : AttributeKey → Bool) (seen : List AttributeKey)
    (as : List (Attribute P)) :
    firsts seen (as.filter fun a => q a.key) = (firsts seen as).filter fun a => q a.key := by
  induction as generalizing seen with
  | nil => rfl
  | cons a as ih =>
    by_cases ha : a.key ∈ seen
    · rw [firsts_cons_of_mem ha, ← ih, List.filter_cons]
      split
      · exact firsts_cons_of_mem ha
      · rfl
    · rw [firsts_cons_of_not_mem ha]
      by_cases hq : q a.key = true
      · rw [List.filter_cons, if_pos hq, List.filter_cons, if_pos hq, firsts_cons_of_not_mem ha, ih]
      · rw [List.filter_cons, if_neg hq, List.filter_cons, if_neg hq, ← ih]
        refine firsts_congr fun b hb => ?_
        have hne : b.key ≠ a.key := fun e => hq (e ▸ (List.mem_filter.mp hb).2)
        rw [List.mem_cons, or_iff_right hne]

theorem firsts_put {new : Attribute P} (hkey : new.key = k) (h : k ∉ seen) :
    firsts seen (Attribute.put k new as) = Attribute.put k new (firsts seen as) := by
  induction as generalizing seen with
  | nil => rfl
  | cons a as ih =>
    rw [Attribute.put_cons]
    by_cases hak : a.key = k
    · rw [if_pos hak, firsts_cons_of_not_mem (hkey ▸ h), firsts_cons_of_not_mem (hak ▸ h),
        Attribute.put_cons, if_pos hak, hkey, hak]
    · rw [if_neg hak]
      by_cases ha : a.key ∈ seen
      · rw [firsts_cons_of_mem ha, firsts_cons_of_mem ha, ih h]
      · rw [firsts_cons_of_not_mem ha, firsts_cons_of_not_mem ha, Attribute.put_cons, if_neg hak]
        congr 1
        exact ih fun hm => (List.mem_cons.mp hm).elim (fun e => hak e.symm) h

theorem firsts_concat {a : Attribute P} (hnew : a.key ∉ as.map Attribute.key)
    (h : a.key ∉ seen) : firsts seen (as ++ [a]) = firsts seen as ++ [a] := by
  induction as generalizing seen with
  | nil => rw [List.nil_append, firsts_cons_of_not_mem h]; rfl
  | cons b as ih =>
    rw [List.map_cons, List.mem_cons, not_or] at hnew
    rw [List.cons_append]
    by_cases hb : b.key ∈ seen
    · rw [firsts_cons_of_mem hb, firsts_cons_of_mem hb, ih hnew.2 h]
    · rw [firsts_cons_of_not_mem hb, firsts_cons_of_not_mem hb, List.cons_append]
      congr 1
      exact ih hnew.2 fun hm => (List.mem_cons.mp hm).elim hnew.1 h

end Difference

/-! ### Trimmed attributes -/

namespace Attribute

open Difference

variable {as bs : List (Attribute P)} {off : List (NodeId × AttributeKey)} {x : NodeId}
  {k : AttributeKey} {a new : Attribute P}

/-- The first attribute of each key on the element `x`, without the keys that `off` leaves out
there. -/
def trim (off : List (NodeId × AttributeKey)) (x : NodeId) (as : List (Attribute P)) :
    List (Attribute P) :=
  (firsts [] as).filter fun a => (x, a.key) ∉ off

theorem trim_eq_firsts (h : ∀ a ∈ as, (x, a.key) ∉ off) : trim off x as = firsts [] as :=
  List.filter_eq_self.mpr fun a ha => decide_eq_true (h a (firsts_subset [] as ha))

@[simp] theorem trim_nil (x : NodeId) (as : List (Attribute P)) : trim [] x as = firsts [] as :=
  trim_eq_firsts fun _ _ => List.not_mem_nil

theorem nodup_keys_trim (off : List (NodeId × AttributeKey)) (x : NodeId)
    (as : List (Attribute P)) : ((trim off x as).map key).Nodup :=
  (nodup_keys_firsts [] as).sublist (List.filter_sublist.map _)

theorem trim_subset : trim off x as ⊆ as :=
  fun _ ha => firsts_subset [] as (List.mem_filter.mp ha).1

theorem map_trim (f : P → Q) (off : List (NodeId × AttributeKey)) (x : NodeId)
    (as : List (Attribute P)) : (trim off x as).map (map f) = trim off x (as.map (map f)) := by
  rw [trim, trim, ← map_firsts, List.filter_map]
  simp only [Function.comp_def, key_map]

/-- Look-ups see no difference, but where a key is left out. -/
theorem withKey_trim : withKey (trim off x as) k = if (x, k) ∈ off then none else withKey as k := by
  rw [trim, ← firsts_filter (fun k => decide ((x, k) ∉ off)), withKey_firsts List.not_mem_nil]
  induction as with
  | nil => split <;> rfl
  | cons a as ih =>
    rw [List.filter_cons, withKey_cons]
    by_cases hak : a.key = k
    · subst hak
      by_cases hoff : (x, a.key) ∈ off
      · rw [if_neg (by simpa using hoff), ih, if_pos hoff, if_pos hoff]
      · rw [if_pos (by simpa using hoff), withKey_cons, if_pos rfl, if_neg hoff, if_pos rfl]
    · rw [if_neg hak, ← ih]
      split
      · rw [withKey_cons, if_neg hak]
      · rfl

theorem mem_keys_trim_iff :
    k ∈ (trim off x as).map key ↔ (x, k) ∉ off ∧ k ∈ as.map key := by
  rw [← not_iff_not, ← withKey_eq_none_iff, withKey_trim, not_and, ← withKey_eq_none_iff]
  split
  · rename_i h
    exact ⟨fun _ hoff => absurd h hoff, fun _ => rfl⟩
  · rename_i h
    exact ⟨fun hnone _ => hnone, fun hnone => hnone h⟩

/-! ### Changes of trimmed attributes -/

theorem filter_put {q : AttributeKey → Bool} (hkey : new.key = k) (hq : q k = true) :
    (put k new as).filter (fun a => q a.key) = put k new (as.filter fun a => q a.key) := by
  induction as with
  | nil => rfl
  | cons a as ih =>
    rw [put_cons]
    by_cases hak : a.key = k
    · rw [if_pos hak, List.filter_cons_of_pos (by rwa [hkey]),
        List.filter_cons_of_pos (by rwa [hak]), put_cons, if_pos hak]
    · rw [if_neg hak, List.filter_cons, List.filter_cons, ih]
      split
      · rw [put_cons, if_neg hak]
      · rfl

theorem filter_drop {q : AttributeKey → Bool} (hq : q k = false) :
    (drop k as).filter (fun a => q a.key) = as.filter fun a => q a.key := by
  induction as with
  | nil => rfl
  | cons a as ih =>
    rw [drop_cons]
    by_cases hak : a.key = k
    · rw [if_pos hak, List.filter_cons_of_neg (by simp [hak, hq])]
    · rw [if_neg hak, List.filter_cons, List.filter_cons, ih]

theorem trim_put (hkey : new.key = k) (hoff : (x, k) ∉ off) :
    trim off x (put k new as) = put k new (trim off x as) := by
  rw [trim, firsts_put hkey List.not_mem_nil]
  exact filter_put (q := fun k => decide ((x, k) ∉ off)) hkey (decide_eq_true hoff)

theorem trim_concat (hnew : a.key ∉ as.map key) (hoff : (x, a.key) ∉ off) :
    trim off x (as ++ [a]) = trim off x as ++ [a] := by
  rw [trim, firsts_concat hnew List.not_mem_nil, List.filter_append]
  congr 1
  exact List.filter_eq_self.mpr fun b hb => decide_eq_true (List.mem_singleton.mp hb ▸ hoff)

/-- Removing the first attribute of a key uncovers the next one, which is why the key is left out
from then on. -/
theorem trim_drop : trim (off ++ [(x, k)]) x (drop k as) = drop k (trim off x as) := by
  have hleft : ∀ l : AttributeKey, decide ((x, l) ∉ off ++ [(x, k)])
      = (decide (l ≠ k) && decide ((x, l) ∉ off)) := by
    intro l
    simp [and_comm]
  rw [drop_eq_filter (nodup_keys_trim off x as), trim, trim, List.filter_filter]
  simp only [hleft]
  rw [← firsts_filter fun l => decide (l ≠ k) && decide ((x, l) ∉ off), ← firsts_filter fun l =>
    decide (l ≠ k) && decide ((x, l) ∉ off)]
  congr 1
  exact filter_drop (q := fun l => decide (l ≠ k) && decide ((x, l) ∉ off)) (by simp)

theorem trim_append_of_ne {y : NodeId} (h : x ≠ y) (as : List (Attribute P)) :
    trim (off ++ [(y, k)]) x as = trim off x as := by
  refine List.filter_congr fun a _ => ?_
  simp [h]

end Attribute

end ViewLoop
