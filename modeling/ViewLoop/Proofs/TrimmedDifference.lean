import ViewLoop.Proofs.Agreement
import ViewLoop.Proofs.TrimmedTrees

/-!
# Differences of trimmed trees

A difference knows the first attribute of each key only, so the patches between two trimmed trees are
the trimmed patches between the trees (`Difference.patches_trimmed`). No patch of a difference
carries or changes what another one of its patches removes (`Difference.spares_patches`).
-/

namespace ViewLoop

variable {P : Type}

namespace Changes

def trimmed (c : Changes P) : Changes P :=
  ⟨c.removals.map Patch.trimmed, c.replacements.map Patch.trimmed, c.updates.map Patch.trimmed⟩

theorem trimmed_append (a b : Changes P) : (a ++ b).trimmed = a.trimmed ++ b.trimmed := by
  simp only [trimmed, removals_append, replacements_append, updates_append, List.map_append]
  rfl

end Changes

namespace Difference

variable {old new : Node P}

/-! ### Siblings -/

theorem departed_trimmed (ds : List (Node P)) (seen : List NodeId) (cs : List (Node P)) :
    departed (ds.map (Node.trimmed [])) seen (cs.map (Node.trimmed []))
      = (departed ds seen cs).map (Node.trimmed []) := by
  induction cs generalizing seen with
  | nil => rfl
  | cons c cs ih =>
    rw [List.map_cons, departed, departed, Node.id_trimmed, Node.map_id_trimmed]
    split
    · rw [List.map_cons, ← ih]
    · exact ih _

theorem arrived_trimmed (cs : List (Node P)) (seen : List NodeId) (index : Nat)
    (ds : List (Node P)) :
    arrived (cs.map (Node.trimmed [])) seen index (ds.map (Node.trimmed []))
      = (arrived cs seen index ds).map fun q => (q.1, q.2.trimmed []) := by
  induction ds generalizing seen index with
  | nil => rfl
  | cons d ds ih =>
    rw [List.map_cons, arrived, arrived, Node.id_trimmed, Node.map_id_trimmed]
    split
    · rw [List.map_cons, ← ih]
    · exact ih _ _

theorem kept_trimmed (cs : List (Node P)) (seen : List NodeId) (ds : List (Node P)) :
    kept (cs.map (Node.trimmed [])) seen (ds.map (Node.trimmed [])) = kept cs seen ds := by
  induction ds generalizing seen with
  | nil => rfl
  | cons d ds ih =>
    rw [List.map_cons, kept, kept, Node.id_trimmed, Node.map_id_trimmed]
    split
    · exact ih _
    · rw [← ih]

theorem reordering_trimmed (i : NodeId) (cs ds : List (Node P)) :
    reordering i (cs.map (Node.trimmed [])) (ds.map (Node.trimmed []))
      = (reordering i cs ds).map Patch.trimmed := by
  have hposition : position (cs.map (Node.trimmed [])) = position cs := by
    funext x
    rw [position, position, Node.map_id_trimmed]
  unfold reordering
  rw [kept_trimmed, hposition]
  dsimp only
  split <;> rfl

theorem siblingRemovals_trimmed (i : NodeId) (cs ds : List (Node P)) :
    siblingRemovals i (cs.map (Node.trimmed [])) (ds.map (Node.trimmed []))
      = (siblingRemovals i cs ds).map Patch.trimmed := by
  rw [siblingRemovals, siblingRemovals, departed_trimmed, List.map_map, List.map_map]
  exact List.map_congr_left fun c _ => (Patch.trimmed_removal i c).symm

theorem siblingAdditions_trimmed (i : NodeId) (cs ds : List (Node P)) :
    siblingAdditions i (cs.map (Node.trimmed [])) (ds.map (Node.trimmed []))
      = (siblingAdditions i cs ds).map Patch.trimmed := by
  rw [siblingAdditions, siblingAdditions, arrived_trimmed, List.map_map, List.map_map]
  exact List.map_congr_left fun q _ => (Patch.trimmed_addition i q.1 q.2).symm

section Trees

variable [DecidableEq P]

theorem attributePatches_trimmed (i : NodeId) (as bs : List (Attribute P)) :
    attributePatches i (firsts [] as) (firsts [] bs)
      = (attributePatches i as bs).map Patch.trimmed := by
  have hfirsts : ∀ cs : List (Attribute P), firsts [] (firsts [] cs) = firsts [] cs := fun cs =>
    firsts_eq (nodup_keys_firsts [] cs) fun _ _ => List.not_mem_nil
  have hwithKey : ∀ (cs : List (Attribute P)) (k : AttributeKey),
      withKey (firsts [] cs) k = withKey cs k := fun _ _ => withKey_firsts List.not_mem_nil
  have hpatch : attributePatch i (firsts [] as) = attributePatch i as := by
    funext a
    rw [attributePatch, attributePatch, hwithKey]
  have hsame : (attributePatches i as bs).map Patch.trimmed = attributePatches i as bs := by
    refine (List.map_congr_left fun p hp => ?_).trans (List.map_id _)
    rcases attributePatches_cases hp with ⟨a, -, rfl⟩ | ⟨a, -, -, rfl⟩ | ⟨a, -, b, -, -, rfl⟩ <;> rfl
  rw [hsame, attributePatches, attributePatches, hfirsts, hfirsts, hpatch]
  simp only [hwithKey]

/-! ### Trees -/

theorem forest_trimmed (i : NodeId) (cs : List (Node P)) (seen : List NodeId) {ds : List (Node P)}
    (h : ∀ d ∈ ds, ∀ (parent : Option NodeId) (c : Node P),
      node parent (c.trimmed []) (d.trimmed []) = (node parent c d).trimmed) :
    forest i (cs.map (Node.trimmed [])) seen (ds.map (Node.trimmed []))
      = (forest i cs seen ds).trimmed := by
  induction ds generalizing seen with
  | nil => rfl
  | cons d ds ih =>
    have htail := fun seen => ih seen fun e he => h e (List.mem_cons_of_mem _ he)
    have hfind : (cs.map (Node.trimmed [])).find? (fun c => c.id = d.id)
        = (cs.find? fun c => c.id = d.id).map (Node.trimmed []) := by
      rw [List.find?_map]
      simp only [Function.comp_def, Node.id_trimmed]
    rw [List.map_cons, forest, forest, Node.id_trimmed]
    split
    · exact htail seen
    · rw [hfind]
      cases cs.find? fun c => c.id = d.id with
      | none => exact htail seen
      | some c =>
        dsimp only [Option.map_some]
        rw [Changes.trimmed_append, ← htail, h d List.mem_cons_self]

theorem node_trimmed (parent : Option NodeId) (old new : Node P) :
    node parent (old.trimmed []) (new.trimmed []) = (node parent old new).trimmed := by
  induction new generalizing parent old with
  | text i u =>
    cases old with
    | text j s =>
      rw [Node.trimmed, Node.trimmed, node_texts]
      split <;> rfl
    | element j tag as cs => rfl
  | element i tag bs ds ih =>
    cases old with
    | text j s => rfl
    | element j other as cs =>
      rw [Node.trimmed_element, Node.trimmed_element, node, node]
      split
      · have hforest := forest_trimmed j cs [] ih
        rw [Changes.trimmed_append, Changes.trimmed_append, ← hforest, Attribute.trim_nil,
          Attribute.trim_nil, attributePatches_trimmed, siblingRemovals_trimmed,
          reordering_trimmed, siblingAdditions_trimmed, ← List.map_append]
        rfl
      · rw [← Node.trimmed_element, ← Node.trimmed_element]
        rfl

/-! ### All patches -/

omit [DecidableEq P] in
theorem detached_trimmed (live back : List NodeId) (n : Node P) :
    detached live back (n.trimmed []) = (detached live back n).map Patch.trimmed := by
  induction n with
  | text i s => rfl
  | element i tag as cs ih =>
    rw [Node.trimmed_element, detached, detached]
    induction cs with
    | nil => rfl
    | cons c cs ihcs =>
      have htail := ihcs fun d hd => ih d (List.mem_cons_of_mem _ hd)
      rw [List.map_cons, detachedFrom, detachedFrom, htail, Node.id_trimmed, List.map_append]
      split
      · rw [List.map_singleton, Patch.trimmed_removal]
      · rw [ih c List.mem_cons_self]

omit [DecidableEq P] in
theorem escapes_trimmed (live : List NodeId) (p : Patch P) :
    escapes live p.trimmed = (escapes live p).map Patch.trimmed := by
  cases p with
  | replaceChild parent o n =>
    cases parent with
    | none => rfl
    | some x =>
      rw [Patch.trimmed, escapes, escapes, Node.ids_trimmed]
      exact detached_trimmed live n.ids o
  | _ => rfl

theorem changes_trimmed (old new : Node P) :
    changes (old.trimmed []) (new.trimmed []) = (changes old new).trimmed := by
  rw [changes, changes, Node.id_trimmed, Node.id_trimmed, node_trimmed]
  split <;> rfl

/-- Between trimmed trees lie the trimmed patches. -/
theorem patches_trimmed (old new : Node P) :
    patches (old.trimmed []) (new.trimmed []) = (patches old new).map Patch.trimmed := by
  have hescapes : ∀ qs : List (Patch P), (qs.map Patch.trimmed).flatMap (escapes new.ids)
      = (qs.flatMap (escapes new.ids)).map Patch.trimmed := by
    intro qs
    rw [List.flatMap_map, List.map_flatMap]
    exact List.flatMap_congr fun q _ => escapes_trimmed new.ids q
  rw [patches, patches, changes_trimmed, Node.ids_trimmed]
  dsimp only [Changes.trimmed]
  rw [hescapes, List.map_append, List.map_append, List.map_append]

/-! ### What is removed -/

omit [DecidableEq P] in
theorem key_of_withKey {as : List (Attribute P)} {k : AttributeKey} {a : Attribute P}
    (h : withKey as k = some a) : a.key = k := by
  simpa using List.find?_some h

theorem withKey_of_removeAttribute_mem {x y : NodeId} {a : Attribute P}
    {as bs : List (Attribute P)} (h : .removeAttribute y a ∈ attributePatches x as bs) :
    y = x ∧ withKey bs a.key = none := by
  rw [attributePatches, List.mem_append, List.mem_map, List.mem_filterMap] at h
  rcases h with ⟨b, hb, he⟩ | ⟨b, -, he⟩
  · obtain ⟨rfl, rfl⟩ := Patch.removeAttribute.inj he
    exact ⟨rfl, Option.isNone_iff_eq_none.mp (List.mem_filter.mp hb).2⟩
  · unfold attributePatch at he
    split at he
    · split at he <;> cases he
    · cases he

/-- A key is removed from an element that stays, and the new tree does not have it there. -/
theorem stays_of_mem_removed (ho : old.ids.Nodup) (hn : new.ids.Nodup)
    {q : NodeId × AttributeKey} (hq : q ∈ (patches old new).flatMap Patch.removed) :
    ∃ o n, Node.Stays old new o n ∧ n.id = q.1 ∧ withKey n.attributes q.2 = none := by
  obtain ⟨p, hp, hqp⟩ := List.mem_flatMap.mp hq
  obtain ⟨a, rfl, hkey⟩ := Patch.mem_removed_iff.mp hqp
  obtain ⟨o, n, stays, hmem⟩ := exists_of_changesAttribute ho hn hp rfl
  obtain ⟨hid, hnone⟩ := withKey_of_removeAttribute_mem hmem
  exact ⟨o, n, stays, stays.id_eq.symm.trans hid.symm, hkey ▸ hnone⟩

/-- No patch of a difference carries or changes what another one removes. -/
theorem spares_patches (ho : old.ids.Nodup) (hn : new.ids.Nodup) {p : Patch P}
    (hp : p ∈ patches old new) : p.Spares ((patches old new).flatMap Patch.removed) := by
  -- what comes in does not stay, and keys that are removed are not in the new tree
  have hbrings : ∀ q ∈ (patches old new).flatMap Patch.removed, q.1 ∉ p.brings := by
    intro q hq
    obtain ⟨o, n, stays, hid, -⟩ := stays_of_mem_removed ho hn hq
    exact hid ▸ (exists_stays_iff ho hn stays.mem_new).mp ⟨o, stays⟩ p hp
  have hkeys : ∀ {o n : Node P} {k : AttributeKey}, Node.Stays old new o n →
      k ∈ n.attributes.map Attribute.key →
        (o.id, k) ∉ (patches old new).flatMap Patch.removed := by
    intro o n k stays hk hq
    obtain ⟨o', n', stays', hid, hnone⟩ := stays_of_mem_removed ho hn hq
    obtain rfl := Node.eq_of_id_eq hn stays'.mem_new stays.mem_new (hid.trans stays.id_eq)
    exact withKey_eq_none_iff.mp hnone hk
  cases p with
  | addChild x i c => exact hbrings
  | addText x i c => exact hbrings
  | replaceChild x o n => exact hbrings
  | updateAttribute x b a =>
    obtain ⟨o, n, stays, hmem⟩ := exists_of_changesAttribute ho hn hp rfl
    rcases attributePatches_cases hmem with ⟨c, -, he⟩ | ⟨c, -, -, he⟩ | ⟨c, hc, d, hd, -, he⟩
    · exact nomatch he
    · exact nomatch he
    · obtain ⟨rfl, rfl, rfl⟩ := Patch.updateAttribute.inj he
      have hkey := key_of_withKey hd
      exact ⟨hkey.symm, hkeys stays (hkey ▸ List.mem_map_of_mem hc)⟩
  | addAttribute x a =>
    obtain ⟨o, n, stays, hmem⟩ := exists_of_changesAttribute ho hn hp rfl
    rcases attributePatches_cases hmem with ⟨c, -, he⟩ | ⟨c, hc, -, he⟩ | ⟨c, -, d, -, -, he⟩
    · exact nomatch he
    · obtain ⟨rfl, rfl⟩ := Patch.addAttribute.inj he
      refine hkeys stays (List.mem_map.mpr ⟨c, hc, ?_⟩)
      split
      · rename_i hi
        exact Attribute.key_of_isIdentity hi o.id
      · rfl
    · exact nomatch he
  | _ => exact trivial

end Trees

end Difference

end ViewLoop
