import ViewLoop.Proofs.Carried

/-!
# What patches arise from

Every patch of a difference belongs to one couple of nodes: to two nodes of which the old one stays
as the new one, or to two children of such nodes that share their identity and nothing else, of
which the new one takes the place of the old one (`Difference.mem_changes_iff`). Removals out of
replaced trees come on top (`Difference.arises_of_mem_patches`).
-/

namespace ViewLoop

namespace Difference

open Node (Stays)

variable {P : Type} [DecidableEq P] {old new o n c d : Node P} {parent : Option NodeId}
  {p : Patch P}

/-- The patches of two nodes of one shape, without those of the nodes below them. -/
def ownPatches : Node P → Node P → List (Patch P)
  | .element i _ as cs, .element _ _ bs ds =>
    siblingRemovals i cs ds ++ attributePatches i as bs
      ++ (reordering i cs ds ++ siblingAdditions i cs ds)
  | .text i s, .text _ u => if s = u then [] else [.updateText i u]
  | _, _ => []

theorem ownPatches_cases (hp : p ∈ ownPatches o n) :
    (∃ c, p = .removal o.id c)
      ∨ p ∈ attributePatches o.id o.attributes n.attributes
      ∨ (∃ order, p = .reorderChildren o.id order)
      ∨ (∃ i, ∃ c ∈ n.children, p = .addition o.id i c)
      ∨ ∃ s, p = .updateText o.id s := by
  unfold ownPatches at hp
  split at hp
  · rename_i i tag as cs j other bs ds
    rw [List.mem_append, List.mem_append, List.mem_append] at hp
    rcases hp with (hp | hp) | hp | hp
    · obtain ⟨c, -, rfl⟩ := List.mem_map.mp hp
      exact Or.inl ⟨c, rfl⟩
    · exact Or.inr (Or.inl hp)
    · unfold reordering at hp
      dsimp only at hp
      split at hp
      · exact absurd hp List.not_mem_nil
      · exact Or.inr (Or.inr (Or.inl ⟨_, List.mem_singleton.mp hp⟩))
    · obtain ⟨q, hq, rfl⟩ := List.mem_map.mp hp
      exact Or.inr (Or.inr (Or.inr (Or.inl ⟨q.1, q.2, mem_arrived_snd hq, rfl⟩)))
  · rename_i i s j u
    split at hp
    · exact absurd hp List.not_mem_nil
    · exact Or.inr (Or.inr (Or.inr (Or.inr ⟨u, List.mem_singleton.mp hp⟩)))
  · exact absurd hp List.not_mem_nil

/-- The patch is one of those for a node that stays, or puts a tree in the place of another one
that has its identity but not its shape. -/
inductive Arises (parent : Option NodeId) (old new : Node P) : Patch P → Prop
  | apart (h : ¬(old.id = new.id ∧ old.SameShape new)) :
    Arises parent old new (.replaceChild parent old new)
  | own {o n : Node P} {p : Patch P} (stays : Stays old new o n) (hp : p ∈ ownPatches o n) :
    Arises parent old new p
  | replaced {o n c d : Node P} (stays : Stays old new o n) (hc : c ∈ o.children)
      (hd : d ∈ n.children) (id : c.id = d.id) (shape : ¬c.SameShape d) :
    Arises parent old new (.replaceChild (some o.id) c d)

theorem Arises.under (hroot : old.id = new.id ∧ old.SameShape new) (hc : c ∈ old.children)
    (hd : d ∈ new.children) (hid : c.id = d.id) (h : Arises (some old.id) c d p) :
    Arises parent old new p := by
  cases h with
  | apart h => exact .replaced (.root hroot.1 hroot.2) hc hd hid fun hs => h ⟨hid, hs⟩
  | own stays hp => exact .own (.under hroot hc hd stays) hp
  | replaced stays hc' hd' id shape => exact .replaced (.under hroot hc hd stays) hc' hd' id shape

theorem arises_iff : Arises parent old new p
    ↔ (¬(old.id = new.id ∧ old.SameShape new) ∧ p = .replaceChild parent old new)
      ∨ (old.id = new.id ∧ old.SameShape new) ∧ (p ∈ ownPatches old new
        ∨ ∃ c ∈ old.children, ∃ d ∈ new.children, c.id = d.id ∧ Arises (some old.id) c d p) := by
  constructor
  · intro h
    cases h with
    | apart h => exact Or.inl ⟨h, rfl⟩
    | own stays hp =>
      refine Or.inr ⟨stays.roots, ?_⟩
      rcases stays.root_or_below with ⟨rfl, rfl⟩ | ⟨c, hc, d, hd, hunder⟩
      · exact Or.inl hp
      · exact Or.inr ⟨c, hc, d, hd, hunder.roots.1, .own hunder hp⟩
    | replaced stays hc hd id shape =>
      refine Or.inr ⟨stays.roots, Or.inr ?_⟩
      rcases stays.root_or_below with ⟨rfl, rfl⟩ | ⟨e, he, f, hf, hunder⟩
      · exact ⟨_, hc, _, hd, id, .apart fun h => shape h.2⟩
      · exact ⟨e, he, f, hf, hunder.roots.1, .replaced hunder hc hd id shape⟩
  · rintro (⟨h, rfl⟩ | ⟨hroot, hp | ⟨c, hc, d, hd, hid, h⟩⟩)
    · exact .apart h
    · exact .own (.root hroot.1 hroot.2) hp
    · exact h.under hroot hc hd hid

theorem arises_iff_of_apart (h : ¬(old.id = new.id ∧ old.SameShape new)) :
    Arises parent old new p ↔ p = .replaceChild parent old new := by
  rw [arises_iff, and_iff_right h, or_iff_left fun hr => h hr.1]

theorem arises_iff_of_roots (h : old.id = new.id ∧ old.SameShape new) :
    Arises parent old new p ↔ p ∈ ownPatches old new
      ∨ ∃ c ∈ old.children, ∃ d ∈ new.children, c.id = d.id ∧ Arises (some old.id) c d p := by
  rw [arises_iff, and_iff_right h, or_iff_right fun hl => hl.1 h]

/-! ### The patches of a couple -/

theorem mem_node_inPlace_iff {i : NodeId} {tag : String} {as bs : List (Attribute P)}
    {cs ds : List (Node P)} (hc : (cs.map Node.id).Nodup) (hd : (ds.map Node.id).Nodup) :
    p ∈ (node parent (.element i tag as cs) (.element i tag bs ds)).all
      ↔ p ∈ ownPatches (.element i tag as cs) (.element i tag bs ds)
        ∨ ∃ c ∈ cs, ∃ d ∈ ds, c.id = d.id ∧ p ∈ (node (some i) c d).all := by
  have hcouples : p ∈ (couples cs ds).flatMap (fun q => (node (some i) q.1 q.2).all)
      ↔ ∃ c ∈ cs, ∃ d ∈ ds, c.id = d.id ∧ p ∈ (node (some i) c d).all := by
    rw [List.mem_flatMap]
    constructor
    · rintro ⟨q, hq, hp⟩
      obtain ⟨h1, h2, hid⟩ := (mem_couples_iff hc).mp hq
      exact ⟨q.1, h1, q.2, h2, hid, hp⟩
    · rintro ⟨c, h1, d, h2, hid, hp⟩
      exact ⟨(c, d), (mem_couples_iff hc).mpr ⟨h1, h2, hid⟩, hp⟩
  rw [(all_node_inPlace parent i i tag as bs cs hd).mem_iff, ← hcouples, ownPatches]
  simp only [List.mem_append]
  tauto

theorem mem_node_iff (parent : Option NodeId) (hid : o.id = n.id) (ho : o.ids.Nodup)
    (hn : n.ids.Nodup) : p ∈ (node parent o n).all ↔ Arises parent o n p := by
  refine couple_induct (motive := fun parent o n =>
    p ∈ (node parent o n).all ↔ Arises parent o n p) ?_ ?_ ?_ parent hid ho hn
  · intro parent i s u
    have hroot : (Node.text i s : Node P).id = (Node.text i u : Node P).id
        ∧ (Node.text i s : Node P).SameShape (.text i u) := ⟨rfl, rfl⟩
    rw [arises_iff_of_roots hroot, node_texts, ownPatches]
    split <;> simp [Changes.all, Node.children]
  · intro parent o n hs
    rw [node_apart parent hs, arises_iff_of_apart fun h => hs h.2]
    exact List.mem_singleton
  · intro parent i tag as bs cs ds ho hn ih
    have hcs : (cs.map Node.id).Nodup := Node.nodup_children ho
    have hds : (ds.map Node.id).Nodup := Node.nodup_children hn
    have hroot : (Node.element i tag as cs).id = (Node.element i tag bs ds).id
        ∧ (Node.element i tag as cs).SameShape (.element i tag bs ds) := ⟨rfl, rfl⟩
    rw [mem_node_inPlace_iff hcs hds, arises_iff_of_roots hroot]
    refine or_congr_right ⟨?_, ?_⟩
    · rintro ⟨c, hc, d, hd, hcd, hp⟩
      exact ⟨c, hc, d, hd, hcd, (ih c hc d hd hcd).mp hp⟩
    · rintro ⟨c, hc, d, hd, hcd, hp⟩
      exact ⟨c, hc, d, hd, hcd, (ih c hc d hd hcd).mpr hp⟩

/-! ### The patches of a difference -/

theorem mem_changes_iff (ho : old.ids.Nodup) (hn : new.ids.Nodup) :
    p ∈ (changes old new).all ↔ Arises none old new p := by
  rw [changes]
  split
  · rename_i hid
    exact mem_node_iff none hid ho hn
  · rename_i hid
    rw [arises_iff_of_apart fun h => hid h.1]
    exact List.mem_singleton

theorem arises_of_mem_patches (ho : old.ids.Nodup) (hn : new.ids.Nodup)
    (hp : p ∈ patches old new) : Arises none old new p ∨ ∃ i c, p = Patch.removal i c := by
  rcases mem_patches_iff.mp hp with hp | ⟨q, -, hpq⟩
  · exact Or.inl ((mem_changes_iff ho hn).mp hp)
  · obtain ⟨-, -, -, -, m, -, c, -, rfl, -⟩ := exists_of_mem_escapes hpq
    exact Or.inr ⟨m.id, c, rfl⟩

end Difference

end ViewLoop
