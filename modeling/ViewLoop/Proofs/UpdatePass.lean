import ViewLoop.Proofs.AttributePass

/-!
# The pass that updates

With every replacement made, what stays is changed in place: attributes first, then the children
that stay, one after another, then their order; and the children that come are put between them.
The tree is then like the new one (`Difference.course_updates`).
-/

namespace ViewLoop

variable {P : Type} {w : Bool} {known : HandlerId → Prop} {live : List NodeId}

theorem Node.Alike.marks_perm {n m : Node P} (h : n.Alike m) : (n.marks w).Perm (m.marks w) := by
  induction n generalizing m with
  | element i tag as cs ih =>
    obtain ⟨bs, ds, rfl, hp, hf⟩ := alike_element_iff.mp h
    rw [marks_element, marks_element]
    refine ((hp.flatMap_right _).append ?_).cons _
    clear h hp
    induction hf with
    | nil => rfl
    | cons hd _ tail =>
      simp only [List.flatMap_cons]
      exact (ih _ List.mem_cons_self hd).append
        (tail fun c hc => ih c (List.mem_cons_of_mem _ hc))
  | text i s => rw [alike_text_iff.mp h]

namespace Difference

variable {cs ds : List (Node P)}

/-! ### Order -/

theorem ascending_iff (l : List Nat) : ascending l = true ↔ l.Pairwise (· ≤ ·) := by
  induction l with
  | nil => simp [ascending]
  | cons a l ih =>
    cases l with
    | nil => simp [ascending]
    | cons b l =>
      rw [ascending, Bool.and_eq_true, ih, decide_eq_true_eq]
      constructor
      · rintro ⟨hab, h⟩
        refine List.pairwise_cons.mpr ⟨fun c hc => ?_, h⟩
        rcases List.mem_cons.mp hc with rfl | hc
        · exact hab
        · exact Nat.le_trans hab ((List.pairwise_cons.mp h).1 c hc)
      · intro h
        have h := List.pairwise_cons.mp h
        exact ⟨h.1 b List.mem_cons_self, h.2⟩

theorem pairwise_position (hc : (cs.map Node.id).Nodup) :
    (cs.map Node.id).Pairwise fun x y => position cs x ≤ position cs y := by
  rw [List.pairwise_iff_getElem]
  intro i j hi hj hij
  rw [position, position, hc.idxOf_getElem, hc.idxOf_getElem]
  exact Nat.le_of_lt hij

theorem partners_perm_couples (hc : (cs.map Node.id).Nodup) (hd : (ds.map Node.id).Nodup) :
    (partners cs ds).Perm (couples cs ds) := by
  refine (List.perm_ext_iff_of_nodup (List.Nodup.of_map _ (nodup_partners hc))
    (nodup_couples hd)).mpr fun q => ?_
  rw [mem_partners_iff hd, mem_couples_iff hc]

/-- If the children that stay stand in order, their new order is the old one. -/
theorem couples_eq_partners (hc : (cs.map Node.id).Nodup) (hd : (ds.map Node.id).Nodup)
    (h : ascending ((kept cs [] ds).map (position cs)) = true) : couples cs ds = partners cs ds := by
  have hcouples : (couples cs ds).Pairwise
      fun q r => position cs q.1.id ≤ position cs r.1.id := by
    rw [ascending_iff, kept_eq hd fun _ _ => List.not_mem_nil, List.map_map, List.map_map,
      List.pairwise_map] at h
    refine h.imp_of_mem fun {q r} hq hr hqr => ?_
    rw [((mem_couples_iff hc).mp hq).2.2, ((mem_couples_iff hc).mp hr).2.2]
    exact hqr
  have hpartners : (partners cs ds).Pairwise
      fun q r => position cs q.1.id ≤ position cs r.1.id := by
    have hsub : ((partners cs ds).map fun q => q.1.id).Sublist (cs.map Node.id) := by
      have h : (partners cs ds).map (fun q => q.1.id)
          = ((partners cs ds).map Prod.fst).map Node.id := by
        rw [List.map_map]
        rfl
      rw [h, map_fst_partners]
      exact List.filter_sublist.map _
    have h := (pairwise_position hc).sublist hsub
    rwa [List.pairwise_map] at h
  refine List.Perm.eq_of_pairwise (fun q r hq hr hqr hrq => ?_) hcouples hpartners
    (partners_perm_couples hc hd).symm
  obtain ⟨hq1, hq2, hqid⟩ := (mem_couples_iff hc).mp hq
  obtain ⟨hr1, hr2, hrid⟩ := (mem_partners_iff hd).mp hr
  have hid : q.1.id = r.1.id :=
    (List.idxOf_inj (List.mem_map_of_mem hq1)).mp (Nat.le_antisymm hqr hrq)
  refine Prod.ext (List.inj_on_of_nodup_map hc hq1 hr1 hid) ?_
  exact List.inj_on_of_nodup_map hd hq2 hr2 (hqid.symm.trans (hid.trans hrid))

theorem course_reordering (i : NodeId) (tag : String) (as : List (Attribute P))
    (hc : (cs.map Node.id).Nodup) (hd : (ds.map Node.id).Nodup) {g : Node P × Node P → Node P}
    (hg : ∀ q ∈ partners cs ds, (g q).id = q.1.id) :
    Course w (.element i tag as ((partners cs ds).map g)) (reordering i cs ds)
      (.element i tag as ((couples cs ds).map g)) := by
  rw [show reordering i cs ds = if ascending ((kept cs [] ds).map (position cs)) = true then []
    else [.reorderChildren i (kept cs [] ds)] from rfl]
  split
  · rename_i h
    rw [couples_eq_partners hc hd h]
    exact .nil _
  · have hperm := partners_perm_couples hc hd
    have hids : ((couples cs ds).map g).map Node.id = kept cs [] ds := by
      rw [kept_eq hd fun _ _ => List.not_mem_nil, List.map_map, List.map_map]
      refine List.map_congr_left fun q hq => ?_
      exact (hg q (hperm.mem_iff.mpr hq)).trans ((mem_couples_iff hc).mp hq).2.2
    have hnd : (((partners cs ds).map g).map Node.id).Nodup := by
      rw [List.map_map]
      have hkeys : (partners cs ds).map (Node.id ∘ g) = (partners cs ds).map fun q => q.1.id :=
        List.map_congr_left fun q hq => hg q hq
      rw [hkeys]
      exact nodup_partners hc
    have horder : (kept cs [] ds).Perm (((partners cs ds).map g).map Node.id) := by
      rw [← hids]
      exact ((hperm.map g).map Node.id).symm
    have hsuits : (Patch.reorderChildren i (kept cs [] ds)).Suits w
        (.element i tag as ((partners cs ds).map g)) := ⟨rfl, horder⟩
    have hcourse := Course.single (w := w) (n := .element i tag as ((partners cs ds).map g)) rfl
      hsuits
    have hact : ((kept cs [] ds).filterMap fun x =>
        ((partners cs ds).map g).find? fun c => c.id = x) = (couples cs ds).map g := by
      rw [← hids, List.filterMap_map]
      refine (List.filterMap_congr fun m hm => ?_).trans List.filterMap_some
      have hmem : m ∈ (partners cs ds).map g := (hperm.map g).mem_iff.mpr hm
      exact (Node.find?_id_eq_some_iff hnd).mpr ⟨hmem, rfl⟩
    rwa [Patch.act, Node.withChildren, hact] at hcourse

/-! ### Children that come -/

/-- The child that stands in the place of a new one in the end. -/
def settled (cs : List (Node P)) (g : Node P × Node P → Node P) (d : Node P) : Node P :=
  match cs.find? fun c => c.id = d.id with
  | some c => g (c, d)
  | none => d

theorem target_addition (i : NodeId) (index : Nat) (c : Node P) :
    (Patch.addition i index c).target = some i := by
  unfold Patch.addition
  split <;> rfl

theorem act_addition (i : NodeId) (index : Nat) (c n : Node P) :
    (Patch.addition i index c).act n = n.withChildren (·.insertIdx index c) := by
  unfold Patch.addition
  split <;> rfl

theorem touches_addition (i : NodeId) (index : Nat) (c : Node P) :
    (Patch.addition i index c).touches w = c.marks w := by
  unfold Patch.addition
  split <;> rfl

theorem suits_addition (i : NodeId) {index : Nat} {c n : Node P} (ht : n.isText = false)
    (hi : index ≤ n.children.length) (hc : Patch.Enters w c n) :
    (Patch.addition i index c).Suits w n := by
  unfold Patch.addition
  split
  · rename_i h
    exact ⟨h, ht, hi, hc⟩
  · rename_i h
    exact ⟨by simpa using h, ht, hi, hc⟩

section Element

variable {i : NodeId} {tag : String} {as bs last : List (Attribute P)}

theorem settled_alike {g : Node P × Node P → Node P} (hc : (cs.map Node.id).Nodup)
    (hd : (ds.map Node.id).Nodup) (hg : ∀ q ∈ partners cs ds, (g q).Alike q.2) {d : Node P}
    (hm : d ∈ ds) : (settled cs g d).Alike d := by
  rw [settled]
  split
  · rename_i c hf
    obtain ⟨hcm, hid⟩ := (Node.find?_id_eq_some_iff hc).mp hf
    exact hg (c, d) ((mem_partners_iff hd).mpr ⟨hcm, hm, hid⟩)
  · exact .refl d

theorem couples_cons_some {c d : Node P} {rest : List (Node P)}
    (hf : cs.find? (fun c => c.id = d.id) = some c) :
    couples cs (d :: rest) = (c, d) :: couples cs rest := by
  rw [couples, List.filterMap_cons, hf]
  rfl

theorem couples_cons_none {d : Node P} {rest : List (Node P)}
    (hf : cs.find? (fun c => c.id = d.id) = none) :
    couples cs (d :: rest) = couples cs rest := by
  rw [couples, List.filterMap_cons, hf]
  rfl

/-- While a child `d` is still to come, what is there has its marks from other new children. -/
theorem exists_sibling_of_mem
    (h : Revision w known live (.element i tag as cs) (.element i tag bs ds))
    {g : Node P × Node P → Node P} (hg : ∀ q ∈ partners cs ds, (g q).Alike q.2) {d m : Node P}
    {pre rest : List (Node P)} (hsplit : ds = pre ++ d :: rest)
    (hm : m ∈ pre.map (settled cs g) ++ (couples cs rest).map g) :
    ∃ r ∈ ds, r ≠ d ∧ m.marks w ⊆ r.marks w := by
  have hnd := h.nodup_new
  rw [hsplit, List.map_append, List.map_cons, List.nodup_append] at hnd
  obtain ⟨-, hdrest, hpre⟩ := hnd
  rcases List.mem_append.mp hm with hm | hm
  · obtain ⟨e, he, rfl⟩ := List.mem_map.mp hm
    have hed : e ∈ ds := hsplit ▸ List.mem_append_left _ he
    refine ⟨e, hed, ?_, (settled_alike h.nodup_old h.nodup_new hg hed).marks_perm.subset⟩
    rintro rfl
    exact hpre _ (List.mem_map_of_mem he) _ List.mem_cons_self rfl
  · obtain ⟨q, hq, rfl⟩ := List.mem_map.mp hm
    obtain ⟨hq1, hq2, hqid⟩ := (mem_couples_iff h.nodup_old).mp hq
    have hqd : q.2 ∈ ds := hsplit ▸ List.mem_append_right _ (List.mem_cons_of_mem _ hq2)
    have hpart := (mem_partners_iff h.nodup_new).mpr ⟨hq1, hqd, hqid⟩
    refine ⟨q.2, hqd, ?_, (hg q hpart).marks_perm.subset⟩
    rintro rfl
    exact (List.nodup_cons.mp hdrest).1 (List.mem_map_of_mem hq2)

theorem enters_addition (h : Revision w known live (.element i tag as cs) (.element i tag bs ds))
    (hlast : last.Perm bs) {g : Node P × Node P → Node P}
    (hg : ∀ q ∈ partners cs ds, (g q).Alike q.2) {d : Node P} {pre rest : List (Node P)}
    (hsplit : ds = pre ++ d :: rest) :
    Patch.Enters w d (.element i tag last (pre.map (settled cs g) ++ (couples cs rest).map g)) := by
  have hdm : d ∈ ds := hsplit ▸ List.mem_append_right _ List.mem_cons_self
  have hds := Node.mem_subtrees_child i tag bs hdm
  refine ⟨Node.nodup_marks_of_mem h.newMarks hds, (h.newTidy.of_mem hds).assigned,
    (h.newTidy.of_mem hds).keys, fun x hx hxe => ?_⟩
  have hout := not_mem_beside_of_old h.newMarks hdm hx fun m hm =>
    exists_sibling_of_mem h hg hsplit hm
  rw [mem_beside_iff tag, Node.marks_element] at hout
  rw [Node.marks_element] at hxe
  exact hout ((((hlast.flatMap_right _).append_right _).cons _).mem_iff.mp hxe)

/-- The new children are gone through; those in `pre` are in their places. -/
theorem course_additions (h : Revision w known live (.element i tag as cs) (.element i tag bs ds))
    (hlast : last.Perm bs) {g : Node P × Node P → Node P}
    (hg : ∀ q ∈ partners cs ds, (g q).Alike q.2) (seen : List NodeId) {pre rest : List (Node P)}
    (hsplit : ds = pre ++ rest) (hseen : ∀ d ∈ rest, d.id ∉ seen) :
    Course w (.element i tag last (pre.map (settled cs g) ++ (couples cs rest).map g))
      ((arrived cs seen pre.length rest).map fun c => Patch.addition i c.1 c.2)
      (.element i tag last (ds.map (settled cs g))) := by
  -- What stands below the element is `pre` in its new order and then the couples that are still to
  -- come, so that the next place is `pre.length` whether a child comes in or is there already.
  induction rest generalizing pre seen with
  | nil =>
    rw [List.append_nil] at hsplit
    subst hsplit
    rw [show couples cs ([] : List (Node P)) = [] from rfl, List.map_nil, List.append_nil]
    exact .nil _
  | cons d rest ih =>
    have hnd := h.nodup_new
    rw [hsplit, List.map_append, List.map_cons, List.nodup_append] at hnd
    have hrest : ∀ e ∈ rest, e.id ≠ d.id := fun e he heq =>
      (List.nodup_cons.mp hnd.2.1).1 (List.mem_map.mpr ⟨e, he, heq⟩)
    have hsplit' : ds = (pre ++ [d]) ++ rest := by
      rw [hsplit, List.append_assoc, List.singleton_append]
    have hlen : (pre ++ [d]).length = pre.length + 1 := by simp
    rw [arrived_cons (hseen d List.mem_cons_self)]
    cases hf : cs.find? fun c => c.id = d.id with
    | some c =>
      -- the child is there already: it only counts as settled from now on
      obtain ⟨hcm, hid⟩ := (Node.find?_id_eq_some_iff h.nodup_old).mp hf
      have hmem : d.id ∈ cs.map Node.id := List.mem_map.mpr ⟨c, hcm, hid⟩
      have hset : settled cs g d = g (c, d) := by
        rw [settled, hf]
      have hnext := ih (d.id :: seen) hsplit' fun e he hm => by
        rcases List.mem_cons.mp hm with heq | hm
        · exact hrest e he heq
        · exact hseen e (List.mem_cons_of_mem _ he) hm
      rw [hlen, List.map_append, List.map_singleton, hset, List.append_assoc,
        List.singleton_append] at hnext
      rw [if_pos hmem, couples_cons_some hf, List.map_cons]
      exact hnext
    | none =>
      -- the child comes in between those that are settled and the couples
      have hmem := Node.find?_id_eq_none_iff.mp hf
      have hset : settled cs g d = d := by
        rw [settled, hf]
      have hfirst := Course.single (w := w) (target_addition i pre.length d)
        (suits_addition i rfl (by simp [Node.children]) (enters_addition h hlast hg hsplit))
      have hplace : (pre.map (settled cs g) ++ (couples cs rest).map g).insertIdx pre.length d
          = pre.map (settled cs g) ++ d :: (couples cs rest).map g := by
        have := Node.insertIdx_middle (pre.map (settled cs g)) ((couples cs rest).map g) d
        rwa [List.length_map] at this
      rw [act_addition, Node.withChildren, hplace] at hfirst
      have hnext := ih seen hsplit' fun e he => hseen e (List.mem_cons_of_mem _ he)
      rw [hlen, List.map_append, List.map_singleton, hset, List.append_assoc,
        List.singleton_append] at hnext
      rw [if_neg hmem, couples_cons_none hf, List.map_cons]
      exact hfirst.append hnext

/-- What a new element registers itself is not in the parts below it. -/
theorem own_not_mem (h : Revision w known live (.element i tag as cs) (.element i tag bs ds))
    {x : Mark} (hx : x ∈ bs.flatMap (Attribute.marks w)) {q : Node P × Node P}
    (hq : q ∈ partners cs ds) {m : Node P} (hm : ∀ y ∈ m.marks w, Within w live q.1 q.2 y) :
    x ∉ m.marks w := by
  obtain ⟨hq1, hq2, hqid⟩ := (mem_partners_iff h.nodup_new).mp hq
  intro hxm
  cases x with
  | node y =>
    obtain ⟨b, -, hb⟩ := List.mem_flatMap.mp hx
    exact Node.node_not_mem_attribute_marks b y hb
  | handler y =>
    have hxq : .handler y ∈ q.1.handlerMarks w ∨ .handler y ∈ q.2.handlerMarks w :=
      (hm _ hxm).imp (fun hx => Node.mem_handlerMarks_iff.mpr ⟨hx, rfl⟩) fun hx =>
        Node.mem_handlerMarks_iff.mpr ⟨hx, rfl⟩
    refine (h.child hq1 hq2 hqid).slot.disjoint h.ownSlot (fun z hz => ?_) (fun z hz => ?_) hxq
      (Or.inr hx)
    · exact (Node.not_mem_own_of_mem h.oldMarks hq1 (Node.mem_handlerMarks_iff.mp hz).1).2
    · exact (Node.not_mem_own_of_mem h.newMarks hq2 (Node.mem_handlerMarks_iff.mp hz).1).2

theorem reach_of_mem_own {x : Mark}
    (hx : x ∈ as.flatMap (Attribute.marks w) ∨ x ∈ bs.flatMap (Attribute.marks w)) :
    Reach w (.element i tag as cs) (.element i tag bs ds) x := by
  rcases hx with hx | hx
  · cases x with
    | node y =>
      obtain ⟨a, -, ha⟩ := List.mem_flatMap.mp hx
      exact absurd ha (Node.node_not_mem_attribute_marks a y)
    | handler y =>
      refine Or.inl ?_
      rw [Node.marks_element]
      exact List.mem_cons_of_mem _ (List.mem_append_left _ hx)
  · refine reach_of_mem_new ?_
    rw [Node.marks_element]
    exact List.mem_cons_of_mem _ (List.mem_append_left _ hx)

theorem mem_arrived_snd {seen : List NodeId} {index : Nat} {c : Nat × Node P}
    (h : c ∈ arrived cs seen index ds) : c.2 ∈ ds := by
  induction ds generalizing seen index with
  | nil => exact absurd h List.not_mem_nil
  | cons d ds ih =>
    rw [arrived] at h
    split at h
    · rcases List.mem_cons.mp h with rfl | h
      · exact List.mem_cons_self
      · exact List.mem_cons_of_mem _ (ih h)
    · exact List.mem_cons_of_mem _ (ih h)

theorem touches_reordering {p : Patch P} (h : p ∈ reordering i cs ds) : p.touches w = [] := by
  rw [show reordering i cs ds = if ascending ((kept cs [] ds).map (position cs)) = true then []
    else [.reorderChildren i (kept cs [] ds)] from rfl] at h
  split at h
  · exact absurd h List.not_mem_nil
  · rw [List.mem_singleton.mp h]
    rfl

/-! ### The fourth pass -/

theorem updates_inPlace [DecidableEq P]
    (h : Revision w known live (.element i tag as cs) (.element i tag bs ds))
    (parent : Option NodeId) :
    (node parent (.element i tag as cs) (.element i tag bs ds)).updates
      = attributePatches i as bs
        ++ ((couples cs ds).flatMap fun q => (node (some i) q.1 q.2).updates)
        ++ (reordering i cs ds ++ siblingAdditions i cs ds) := by
  rw [node_inPlace parent i i tag as bs cs h.nodup_new]
  simp [Changes.join, List.flatMap_map]

theorem mem_couples_iff_mem_partners
    (h : Revision w known live (.element i tag as cs) (.element i tag bs ds))
    (q : Node P × Node P) : q ∈ couples cs ds ↔ q ∈ partners cs ds :=
  (mem_couples_iff h.nodup_old).trans (mem_partners_iff h.nodup_new).symm

theorem touches_updates [DecidableEq P]
    (h : Revision w known live (.element i tag as cs) (.element i tag bs ds))
    (hbelow : ∀ q ∈ partners cs ds, ∀ p ∈ (node (some i) q.1 q.2).updates, ∀ x ∈ p.touches w,
      Reach w q.1 q.2 x) (parent : Option NodeId) :
    ∀ p ∈ (node parent (.element i tag as cs) (.element i tag bs ds)).updates,
      ∀ x ∈ p.touches w, Reach w (.element i tag as cs) (.element i tag bs ds) x := by
  intro p hp x hx
  rw [updates_inPlace h, List.mem_append, List.mem_append, List.mem_append] at hp
  rcases hp with (hp | hp) | hp | hp
  · exact reach_of_mem_own (touches_attributePatches h p hp x hx)
  · obtain ⟨q, hq, hpq⟩ := List.mem_flatMap.mp hp
    obtain ⟨hc, hd, -⟩ := (mem_couples_iff h.nodup_old).mp hq
    exact (hbelow q ((mem_couples_iff_mem_partners h q).mp hq) p hpq x hx).of_child hc hd
  · rw [touches_reordering hp] at hx
    exact absurd hx List.not_mem_nil
  · obtain ⟨c, hc, rfl⟩ := List.mem_map.mp hp
    rw [touches_addition] at hx
    refine reach_of_mem_new (Node.marks_subset_of_mem ?_ hx)
    exact Node.mem_subtrees_child _ _ _ (mem_arrived_snd hc)

/-- The children that stay are updated one after another, each beside the others. -/
theorem course_childUpdates [DecidableEq P]
    (h : Revision w known live (.element i tag as cs) (.element i tag bs ds))
    (hrev : ∀ q ∈ partners cs ds, Revision w known live q.1 q.2) (hlast : last.Perm bs)
    {g : Node P × Node P → Node P}
    (hg : ∀ q ∈ partners cs ds,
      Course w (merge arrive q.1 q.2) (node (some i) q.1 q.2).updates (g q) ∧ (g q).Alike q.2)
    (hbelow : ∀ q ∈ partners cs ds, ∀ p ∈ (node (some i) q.1 q.2).updates, ∀ x ∈ p.touches w,
      Reach w q.1 q.2 x) :
    Course w (.element i tag last ((partners cs ds).map fun q => merge arrive q.1 q.2))
      ((couples cs ds).flatMap fun q => (node (some i) q.1 q.2).updates)
      (.element i tag last ((partners cs ds).map g)) := by
  have hmem := mem_couples_iff_mem_partners h
  have hgid : ∀ q ∈ partners cs ds, (g q).id = q.1.id := fun q hq =>
    (hg q hq).2.id_eq.trans (hrev q hq).id_eq.symm
  refine Course.forest
    (fun r hr => id_merge (fun _ _ hid => hid.symm) (hrev r hr).id_eq) hgid
    (nodup_partners h.nodup_old) (nodup_couples h.nodup_new) (fun q hq => (hmem q).mp hq) ?_
    (fun _ _ => rfl) fun r hr hno => absurd ((hmem r).mpr hr) hno
  intro q hq before after _ hsib
  have hq' := (hmem q).mp hq
  refine ((hg q hq').1).under fun p hp x hx => ?_
  refine h.not_mem_beside hq' (hbelow q hq' p hp x hx) (fun y hy => Or.inr ?_) fun m hm => ?_
  · exact (hlast.flatMap_right _).mem_iff.mp hy
  · obtain ⟨r, hr, hrq, hmr⟩ := hsib m hm
    refine ⟨r, hr, hrq, ?_⟩
    -- a sibling is still to be updated or is updated already; both keep to the two trees
    rcases hmr with rfl | rfl
    · exact within_merge (fun _ _ _ _ => within_of_mem_new) (hrev r hr)
    · exact fun y hy => within_of_mem_new ((hg r hr).2.marks_perm.mem_iff.mp hy)

end Element

theorem course_updates [DecidableEq P] {o n : Node P} (h : Revision w known live o n)
    (parent : Option NodeId) :
    (∃ t, Course w (merge arrive o n) (node parent o n).updates t ∧ t.Alike n)
      ∧ ∀ p ∈ (node parent o n).updates, ∀ x ∈ p.touches w, Reach w o n x := by
  induction h using Revision.induct generalizing parent with
  | texts i s u h =>
    rw [node_texts, merge_texts]
    split
    · rename_i hsu
      subst hsu
      exact ⟨⟨_, .nil _, .refl _⟩, fun _ hp => absurd hp List.not_mem_nil⟩
    · refine ⟨⟨_, Course.single (p := .updateText i u) rfl rfl, .refl _⟩, fun p hp x hx => ?_⟩
      rw [List.mem_singleton.mp hp] at hx
      exact absurd hx List.not_mem_nil
  | apart o n h hs =>
    rw [node_apart parent hs, merge_apart hs]
    exact ⟨⟨n, .nil _, .refl _⟩, fun _ hp => absurd hp List.not_mem_nil⟩
  | inPlace i tag as bs cs ds h hrev ih =>
    have hbelow := fun q hq => (ih q hq (some i)).2
    refine ⟨?_, touches_updates h hbelow parent⟩
    have : Nonempty (Node P) := ⟨.text i tag⟩
    have hchild : ∀ q ∈ partners cs ds, ∃ t,
        Course w (merge arrive q.1 q.2) (node (some i) q.1 q.2).updates t ∧ t.Alike q.2 :=
      fun q hq => (ih q hq (some i)).1
    -- Each child may end in any tree that is like its new one, so the trees are chosen first.
    choose! g hg using hchild
    have hgid : ∀ q ∈ partners cs ds, (g q).id = q.1.id := fun q hq =>
      (hg q hq).2.id_eq.trans (hrev q hq).id_eq.symm
    have hclear : ∀ x ∈ bs.flatMap (Attribute.marks w),
        x ∉ ((partners cs ds).map fun q => merge arrive q.1 q.2).flatMap (Node.marks w) := by
      intro x hx hxe
      obtain ⟨m, hm, hxm⟩ := List.mem_flatMap.mp hxe
      obtain ⟨q, hq, rfl⟩ := List.mem_map.mp hm
      have hwithin := within_merge (fun _ _ _ _ => within_of_mem_new) (hrev q hq)
      exact own_not_mem h hx hq hwithin hxm
    -- Attributes first, then the children that stay, then their order, then those that come in.
    obtain ⟨last, hlast, hattributes⟩ := course_attributes h hclear
    have hchildren := course_childUpdates h hrev hlast hg hbelow
    have hadditions := course_additions h hlast (g := g) (fun q hq => (hg q hq).2) []
      (List.nil_append ds).symm fun _ _ => List.not_mem_nil
    refine ⟨.element i tag last (ds.map (settled cs g)), ?_, ?_⟩
    · rw [merge_inPlace, updates_inPlace h]
      refine (hattributes.append hchildren).append ?_
      exact (course_reordering i tag last h.nodup_old h.nodup_new hgid).append hadditions
    · refine Node.alike_element hlast ?_
      rw [List.forall₂_map_left_iff, List.forall₂_same]
      exact fun d hd => settled_alike h.nodup_old h.nodup_new (fun q hq => (hg q hq).2) hd

end Difference

end ViewLoop
