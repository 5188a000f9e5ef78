import ViewLoop.Proofs.Retention

/-!
# Trees between an old and a new one

The patches of a difference are applied in passes over the whole tree. `Difference.merge` is the
tree between two passes: the old tree without the children that went, where `leaf` says what stands
in the place of a node that cannot be changed in place. What a pass may touch (`Reach`) and what
may stand in a part of the tree after the removals (`Within`) is bounded by the part alone, so
passes over different parts do not meet.
-/

namespace ViewLoop

namespace Difference

variable {P : Type} {w : Bool} {known : HandlerId → Prop} {live : List NodeId}

/-! ### Merging -/

mutual

/-- The old tree with the children that the new one has too, down to nodes of different shapes. -/
def merge (leaf : Node P → Node P → Node P) : Node P → Node P → Node P
  | .element i tag as cs, n =>
    match n with
    | .element j other bs ds =>
      if tag = other then .element i tag as (mergeForest leaf cs ds)
      else leaf (.element i tag as cs) (.element j other bs ds)
    | .text j u => leaf (.element i tag as cs) (.text j u)
  | .text i s, n =>
    match n with
    | .element j other bs ds => leaf (.text i s) (.element j other bs ds)
    | .text _ _ => .text i s

def mergeForest (leaf : Node P → Node P → Node P) : List (Node P) → List (Node P) → List (Node P)
  | [], _ => []
  | c :: cs, ds =>
    match ds.find? fun d => d.id = c.id with
    | some d => merge leaf c d :: mergeForest leaf cs ds
    | none => mergeForest leaf cs ds

end

variable {leaf : Node P → Node P → Node P}

theorem mergeForest_eq (cs ds : List (Node P)) :
    mergeForest leaf cs ds = (partners cs ds).map fun q => merge leaf q.1 q.2 := by
  induction cs with
  | nil => rfl
  | cons c cs ih =>
    rw [mergeForest, partners, List.filterMap_cons]
    cases hf : ds.find? fun d => d.id = c.id with
    | none => exact ih
    | some d => exact congrArg (merge leaf c d :: ·) ih

theorem merge_inPlace (i j : NodeId) (tag : String) (as bs : List (Attribute P))
    (cs ds : List (Node P)) :
    merge leaf (.element i tag as cs) (.element j tag bs ds)
      = .element i tag as ((partners cs ds).map fun q => merge leaf q.1 q.2) := by
  rw [merge, if_pos rfl, mergeForest_eq]

theorem merge_texts (i j : NodeId) (s u : String) :
    merge leaf (.text i s) (.text j u) = .text i s := rfl

theorem merge_apart {o n : Node P} (h : ¬o.SameShape n) : merge leaf o n = leaf o n := by
  cases o with
  | text i s =>
    cases n with
    | text j u => exact absurd rfl h
    | element j other bs ds => rfl
  | element i tag as cs =>
    cases n with
    | text j u => rfl
    | element j other bs ds =>
      have ht : tag ≠ other := fun e => h (congrArg some e)
      rw [merge, if_neg ht]

/-! ### Changes of a couple -/

theorem node_texts [DecidableEq P] (parent : Option NodeId) (i j : NodeId) (s u : String) :
    node parent (.text i s : Node P) (.text j u)
      = if s = u then {} else { updates := [.updateText i u] } := rfl

theorem node_inPlace [DecidableEq P] (parent : Option NodeId) (i j : NodeId) (tag : String)
    (as bs : List (Attribute P)) (cs : List (Node P)) {ds : List (Node P)}
    (hd : (ds.map Node.id).Nodup) :
    node parent (.element i tag as cs) (.element j tag bs ds)
      = { removals := siblingRemovals i cs ds, updates := attributePatches i as bs }
        ++ Changes.join ((couples cs ds).map fun q => node (some i) q.1 q.2)
        ++ { updates := reordering i cs ds ++ siblingAdditions i cs ds } := by
  rw [node, if_pos rfl, forest_eq_join hd fun _ _ => List.not_mem_nil]

theorem node_apart [DecidableEq P] (parent : Option NodeId) {o n : Node P} (h : ¬o.SameShape n) :
    node parent o n = .replacement parent o n := by
  cases n with
  | text j u =>
    cases o with
    | text i s => exact absurd rfl h
    | element i tag as cs => rfl
  | element j other bs ds =>
    cases o with
    | text i s => rfl
    | element i tag as cs =>
      have ht : tag ≠ other := fun e => h (congrArg some e)
      rw [node, if_neg ht]

end Difference

/-! ### Induction along a revision -/

namespace Revision

open Difference

variable {P : Type} {w : Bool} {known : HandlerId → Prop} {live : List NodeId}

theorem nodup_old {i : NodeId} {tag : String} {as bs : List (Attribute P)} {cs ds : List (Node P)}
    (h : Revision w known live (.element i tag as cs) (.element i tag bs ds)) :
    (cs.map Node.id).Nodup := Node.nodup_children_of_marks h.oldMarks

theorem nodup_new {i : NodeId} {tag : String} {as bs : List (Attribute P)} {cs ds : List (Node P)}
    (h : Revision w known live (.element i tag as cs) (.element i tag bs ds)) :
    (ds.map Node.id).Nodup := Node.nodup_children_of_marks h.newMarks

/-- Nodes of a revision are texts, are elements of one tag whose couples are revisions, or cannot
be changed in place. -/
@[elab_as_elim]
theorem induct {motive : (o n : Node P) → Revision w known live o n → Prop}
    (texts : ∀ i s u (h : Revision w known live (.text i s) (.text i u)), motive _ _ h)
    (inPlace : ∀ i tag as bs cs ds
      (h : Revision w known live (.element i tag as cs) (.element i tag bs ds))
      (hq : ∀ q ∈ partners cs ds, Revision w known live q.1 q.2),
      (∀ q (hm : q ∈ partners cs ds), motive q.1 q.2 (hq q hm)) → motive _ _ h)
    (apart : ∀ o n (h : Revision w known live o n), ¬o.SameShape n → motive o n h)
    {o n : Node P} (h : Revision w known live o n) : motive o n h := by
  induction o generalizing n with
  | text i s =>
    cases n with
    | text j u =>
      obtain rfl : i = j := h.id_eq
      exact texts i s u h
    | element j other bs ds => exact apart _ _ h (by simp [Node.SameShape, Node.tag?])
  | element i tag as cs ih =>
    cases n with
    | text j u => exact apart _ _ h (by simp [Node.SameShape, Node.tag?])
    | element j other bs ds =>
      obtain rfl : i = j := h.id_eq
      by_cases ht : tag = other
      · subst ht
        have hq : ∀ q ∈ partners cs ds, Revision w known live q.1 q.2 := by
          intro q hq
          obtain ⟨hc, hd, hid⟩ := (mem_partners_iff h.nodup_new).mp hq
          exact h.child hc hd hid
        refine inPlace i tag as bs cs ds h hq fun q hm => ?_
        exact ih q.1 ((mem_partners_iff h.nodup_new).mp hm).1 (hq q hm)
      · exact apart _ _ h fun e => ht (Option.some.inj e)

end Revision

namespace Difference

variable {P : Type} {w : Bool} {known : HandlerId → Prop} {live : List NodeId}
variable {leaf : Node P → Node P → Node P} {o n : Node P}

/-! ### What stands in a merged tree -/

theorem id_merge (hleaf : ∀ o n : Node P, o.id = n.id → (leaf o n).id = o.id) (h : o.id = n.id) :
    (merge leaf o n).id = o.id := by
  by_cases hs : o.SameShape n
  · cases o with
    | text i s =>
      cases n with
      | text j u => rfl
      | element j other bs ds => exact absurd hs (by simp [Node.SameShape, Node.tag?])
    | element i tag as cs =>
      cases n with
      | text j u => exact absurd hs (by simp [Node.SameShape, Node.tag?])
      | element j other bs ds =>
        obtain rfl : tag = other := Option.some.inj hs
        rw [merge_inPlace]
        rfl
  · rw [merge_apart hs, hleaf o n h]

theorem marks_merge_subset (hleaf : ∀ o n : Node P, (leaf o n).marks w ⊆ o.marks w)
    (h : Revision w known live o n) : (merge leaf o n).marks w ⊆ o.marks w := by
  induction h using Revision.induct with
  | texts i s u h => exact List.Subset.refl _
  | apart o n h hs =>
    rw [merge_apart hs]
    exact hleaf o n
  | inPlace i tag as bs cs ds h hrev ih =>
    rw [merge_inPlace, Node.marks_element, Node.marks_element]
    refine List.cons_subset_cons _ (List.append_subset.mpr
      ⟨List.subset_append_left _ _, fun x hx => List.mem_append_right _ ?_⟩)
    obtain ⟨m, hm, hxm⟩ := List.mem_flatMap.mp hx
    obtain ⟨q, hq, rfl⟩ := List.mem_map.mp hm
    have hc := ((mem_partners_iff h.nodup_new).mp hq).1
    exact List.mem_flatMap.mpr ⟨q.1, hc, ih q hq hxm⟩

/-- What may stand in a part of the tree once all that had to go has gone. -/
def Within (watched : Bool) (live : List NodeId) (o n : Node P) : Mark → Prop
  | .node y => y ∈ live → y ∈ n.ids
  | .handler y => .handler y ∈ o.marks watched ∨ .handler y ∈ n.marks watched

/-- What the replacements and updates of a part of the tree may touch. -/
def Reach (watched : Bool) (o n : Node P) : Mark → Prop
  | .node y => y ∈ n.ids
  | .handler y => .handler y ∈ o.marks watched ∨ .handler y ∈ n.marks watched

theorem Within.of_child {i : NodeId} {tag : String} {as bs : List (Attribute P)}
    {cs ds : List (Node P)} {c d : Node P} (hc : c ∈ cs) (hd : d ∈ ds) {x : Mark}
    (h : Within w live c d x) :
    Within w live (.element i tag as cs) (.element i tag bs ds) x := by
  have hcs := Node.mem_subtrees_child i tag as hc
  have hds := Node.mem_subtrees_child i tag bs hd
  cases x with
  | node y => exact fun hy => Node.ids_subset_of_mem hds (h hy)
  | handler y =>
    exact h.imp (fun hx => Node.marks_subset_of_mem hcs hx) fun hx =>
      Node.marks_subset_of_mem hds hx

theorem Reach.of_child {i : NodeId} {tag : String} {as bs : List (Attribute P)}
    {cs ds : List (Node P)} {c d : Node P} (hc : c ∈ cs) (hd : d ∈ ds) {x : Mark}
    (h : Reach w c d x) : Reach w (.element i tag as cs) (.element i tag bs ds) x := by
  have hcs := Node.mem_subtrees_child i tag as hc
  have hds := Node.mem_subtrees_child i tag bs hd
  cases x with
  | node y => exact Node.ids_subset_of_mem hds h
  | handler y =>
    exact h.imp (fun hx => Node.marks_subset_of_mem hcs hx) fun hx =>
      Node.marks_subset_of_mem hds hx

theorem within_of_mem_new {x : Mark} (hx : x ∈ n.marks w) : Within w live o n x := by
  cases x with
  | node y => exact fun _ => Node.node_mem_marks_iff.mp hx
  | handler y => exact Or.inr hx

theorem within_merge
    (hleaf : ∀ o n : Node P, Revision w known live o n → ∀ x ∈ (leaf o n).marks w,
      Within w live o n x)
    (h : Revision w known live o n) : ∀ x ∈ (merge leaf o n).marks w, Within w live o n x := by
  induction h using Revision.induct with
  | texts i s u h =>
    intro x hx
    exact within_of_mem_new hx
  | apart o n h hs =>
    rw [merge_apart hs]
    exact hleaf o n h
  | inPlace i tag as bs cs ds h hrev ih =>
    intro x hx
    rw [merge_inPlace, Node.marks_element, List.mem_cons, List.mem_append] at hx
    rcases hx with rfl | hx | hx
    · exact fun _ => Node.id_mem_ids (.element i tag bs ds)
    · cases x with
      | node y =>
        obtain ⟨a, -, ha⟩ := List.mem_flatMap.mp hx
        exact absurd ha (Node.node_not_mem_attribute_marks a y)
      | handler y =>
        refine Or.inl ?_
        rw [Node.marks_element]
        exact List.mem_cons_of_mem _ (List.mem_append_left _ hx)
    · obtain ⟨m, hm, hxm⟩ := List.mem_flatMap.mp hx
      obtain ⟨q, hq, rfl⟩ := List.mem_map.mp hm
      obtain ⟨hc, hd, -⟩ := (mem_partners_iff h.nodup_new).mp hq
      exact (ih q hq x hxm).of_child hc hd

end Difference

end ViewLoop
