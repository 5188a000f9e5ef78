import ViewLoop.Proofs.RemovalPasses

/-!
# The pass that replaces

Once nothing stands in the way, nodes that cannot be changed in place are replaced
(`Difference.course_replacements`). What comes in belongs to one part of the new tree, and no
other part holds any of it (`Revision.not_mem_beside`).
-/

namespace ViewLoop

open Difference

variable {P : Type} {w : Bool} {known : HandlerId → Prop} {live : List NodeId}

/-! ### Parts keep out of each other's way -/

theorem mem_beside_iff (tag : String) {i : NodeId} {as : List (Attribute P)}
    {before after : List (Node P)} {x : Mark} :
    x ∈ beside w i as before after ↔ x ∈ (Node.element i tag as (before ++ after)).marks w := by
  rw [beside, Node.marks_element, List.flatMap_append]

namespace Node

variable {i : NodeId} {tag : String} {as : List (Attribute P)} {cs : List (Node P)}

theorem not_mem_marks_of_ne (hn : ((element i tag as cs).marks w).Nodup) {c d : Node P}
    (hc : c ∈ cs) (hd : d ∈ cs) (hne : d ≠ c) {x : Mark} (hx : x ∈ c.marks w) : x ∉ d.marks w :=
  fun hxd => hne (eq_of_mem_flatMap (nodup_children_marks hn) hc hd hx hxd)

theorem not_mem_own_of_mem (hn : ((element i tag as cs).marks w).Nodup) {c : Node P}
    (hc : c ∈ cs) {x : Mark} (hx : x ∈ c.marks w) :
    x ≠ .node i ∧ x ∉ as.flatMap (Attribute.marks w) := by
  rw [marks_element, List.nodup_cons, List.nodup_append] at hn
  obtain ⟨hi, -, -, hdis⟩ := hn
  have hxs : x ∈ cs.flatMap (marks w) := List.mem_flatMap.mpr ⟨c, hc, hx⟩
  refine ⟨?_, fun hxa => hdis x hxa x hxs rfl⟩
  rintro rfl
  exact hi (List.mem_append_right _ hxs)

end Node

namespace Revision

variable {i : NodeId} {tag : String} {as bs as' : List (Attribute P)} {cs ds : List (Node P)}

theorem partner_ne (h : Revision w known live (.element i tag as cs) (.element i tag bs ds))
    {q r : Node P × Node P} (hq : q ∈ partners cs ds) (hr : r ∈ partners cs ds) (hne : r ≠ q) :
    r.1 ≠ q.1 ∧ r.2 ≠ q.2 := by
  obtain ⟨hq1, hq2, hqid⟩ := (mem_partners_iff h.nodup_new).mp hq
  obtain ⟨hr1, hr2, hrid⟩ := (mem_partners_iff h.nodup_new).mp hr
  constructor
  · intro e
    refine hne (Prod.ext e (List.inj_on_of_nodup_map h.nodup_new hr2 hq2 ?_))
    rw [← hrid, e, hqid]
  · intro e
    refine hne (Prod.ext (List.inj_on_of_nodup_map h.nodup_old hr1 hq1 ?_) e)
    rw [hrid, e, hqid]

/-- What a couple may touch is not beside it, if its siblings hold what they may hold. -/
theorem not_mem_beside (h : Revision w known live (.element i tag as cs) (.element i tag bs ds))
    {q : Node P × Node P} (hq : q ∈ partners cs ds) {x : Mark} (hx : Reach w q.1 q.2 x)
    (has : ∀ y ∈ as'.flatMap (Attribute.marks w),
      y ∈ as.flatMap (Attribute.marks w) ∨ y ∈ bs.flatMap (Attribute.marks w))
    {before after : List (Node P)}
    (hsib : ∀ m ∈ before ++ after,
      ∃ r ∈ partners cs ds, r ≠ q ∧ ∀ y ∈ m.marks w, Within w live r.1 r.2 y) :
    x ∉ beside w i as' before after := by
  obtain ⟨hq1, hq2, hqid⟩ := (mem_partners_iff h.nodup_new).mp hq
  rw [mem_beside_iff tag, Node.marks_element, List.mem_cons, List.mem_append, not_or,
    not_or]
  cases x with
  | node y =>
    -- A replacement brings identities of the new tree only, and a sibling holds no other live ones.
    have hy : .node y ∈ q.2.marks w := Node.node_mem_marks_iff.mpr hx
    refine ⟨(Node.not_mem_own_of_mem h.newMarks hq2 hy).1, fun ha => ?_, fun hs => ?_⟩
    · obtain ⟨a, -, ha⟩ := List.mem_flatMap.mp ha
      exact Node.node_not_mem_attribute_marks a y ha
    · obtain ⟨m, hm, hym⟩ := List.mem_flatMap.mp hs
      obtain ⟨r, hr, hrq, hwithin⟩ := hsib m hm
      obtain ⟨-, hr2, -⟩ := (mem_partners_iff h.nodup_new).mp hr
      have hlive : y ∈ live :=
        h.live_new (Node.ids_subset_of_mem (Node.mem_subtrees_child _ _ _ hq2) hx)
      have hyr : y ∈ r.2.ids := hwithin _ hym hlive
      exact Node.not_mem_marks_of_ne h.newMarks hq2 hr2 (h.partner_ne hq hr hrq).2 hy
        (Node.node_mem_marks_iff.mpr hyr)
  | handler y =>
    -- A handler may be in the old or the new tree of the couple, and so may those of a sibling: what
    -- keeps them apart is that handlers are retained in place only.
    have hslot := (h.child hq1 hq2 hqid).slot
    have hx' : .handler y ∈ q.1.handlerMarks w ∨ .handler y ∈ q.2.handlerMarks w :=
      hx.imp (fun hx => Node.mem_handlerMarks_iff.mpr ⟨hx, rfl⟩) fun hx =>
        Node.mem_handlerMarks_iff.mpr ⟨hx, rfl⟩
    refine ⟨by simp, fun ha => ?_, fun hs => ?_⟩
    · refine hslot.disjoint h.ownSlot (fun z hz => ?_) (fun z hz => ?_) hx' (has _ ha)
      · exact (Node.not_mem_own_of_mem h.oldMarks hq1 (Node.mem_handlerMarks_iff.mp hz).1).2
      · exact (Node.not_mem_own_of_mem h.newMarks hq2 (Node.mem_handlerMarks_iff.mp hz).1).2
    · obtain ⟨m, hm, hym⟩ := List.mem_flatMap.mp hs
      obtain ⟨r, hr, hrq, hwithin⟩ := hsib m hm
      obtain ⟨hr1, hr2, hrid⟩ := (mem_partners_iff h.nodup_new).mp hr
      obtain ⟨hne1, hne2⟩ := h.partner_ne hq hr hrq
      have hyr : .handler y ∈ r.1.handlerMarks w ∨ .handler y ∈ r.2.handlerMarks w :=
        (hwithin _ hym).imp (fun hx => Node.mem_handlerMarks_iff.mpr ⟨hx, rfl⟩) fun hx =>
          Node.mem_handlerMarks_iff.mpr ⟨hx, rfl⟩
      refine hslot.disjoint (h.child hr1 hr2 hrid).slot (fun z hz hz' => ?_) (fun z hz hz' => ?_)
        hx' hyr
      · exact Node.not_mem_marks_of_ne h.oldMarks hq1 hr1 hne1 (Node.mem_handlerMarks_iff.mp hz).1
          (Node.mem_handlerMarks_iff.mp hz').1
      · exact Node.not_mem_marks_of_ne h.newMarks hq2 hr2 hne2 (Node.mem_handlerMarks_iff.mp hz).1
          (Node.mem_handlerMarks_iff.mp hz').1

end Revision

/-! ### The third pass -/

namespace Difference

/-- After the third pass, nodes that cannot be changed in place are replaced. -/
def arrive (_ n : Node P) : Node P := n

theorem reach_of_mem_new {o n : Node P} {x : Mark} (hx : x ∈ n.marks w) : Reach w o n x := by
  cases x with
  | node y => exact Node.node_mem_marks_iff.mp hx
  | handler y => exact Or.inr hx

theorem reach_of_mem_old {o n : Node P} {x : Mark} (hx : x ∈ o.handlerMarks w) :
    Reach w o n x := by
  obtain ⟨hx, hh⟩ := Node.mem_handlerMarks_iff.mp hx
  cases x with
  | node y => exact absurd hh (by simp [Mark.isHandler])
  | handler y => exact Or.inl hx

theorem within_stripped {o n : Node P} (h : Revision w known live o n) :
    ∀ x ∈ (stripped live o n).marks w, Within w live o n x := by
  intro x hx
  cases x with
  | node y =>
    have hroot : o.id ∈ live → o.id ∈ n.ids := fun _ => h.id_eq ▸ n.id_mem_ids
    exact mem_ids_strip hroot y (Node.node_mem_marks_iff.mp hx)
  | handler y => exact Or.inl (marks_strip_subset o hx)

theorem touches_replacement {parent : Option NodeId} {o n : Node P} :
    ∀ x ∈ (Patch.replaceChild parent o n).touches w, Reach w o n x := by
  intro x hx
  rcases List.mem_append.mp hx with hx | hx
  · exact reach_of_mem_old hx
  · exact reach_of_mem_new hx

/-- A node that cannot be changed in place gives way to its successor. -/
theorem course_replace {i : NodeId} {tag : String} {as : List (Attribute P)}
    {before after : List (Node P)} {m o n : Node P} (h : Revision w known live o n)
    (hid : m.id = o.id) (hm : m.marks w ⊆ o.marks w)
    (hnd : ((before ++ m :: after).map Node.id).Nodup)
    (hclear : ∀ x, Reach w o n x → x ∉ beside w i as before after) :
    Course w (.element i tag as (before ++ m :: after)) [.replaceChild (some i) o n]
      (.element i tag as (before ++ n :: after)) := by
  have hmem : ∀ x, Reach w o n x → x ∈ (Node.element i tag as (before ++ m :: after)).marks w →
      x ∈ m.marks w := by
    intro x hx hxe
    rw [(Node.marks_child_perm i tag as before after m).mem_iff, List.mem_append] at hxe
    exact hxe.resolve_right fun hb => hclear x hx ((mem_beside_iff _).mpr hb)
  have hsuits : (Patch.replaceChild (some i) o n).Suits w
      (.element i tag as (before ++ m :: after)) := by
    refine ⟨m, by simp [Node.children], hid, h.newMarks, h.newTidy.assigned,
      h.newTidy.keys, ?_, ?_, ?_⟩
    · exact fun x hx => hmem x (reach_of_mem_new hx)
    · intro x hx
      obtain ⟨hx, hh⟩ := Node.mem_handlerMarks_iff.mp hx
      exact Node.mem_handlerMarks_iff.mpr ⟨hm hx, hh⟩
    · exact fun x hx => hmem x (reach_of_mem_old hx)
  have hcourse := Course.single (w := w) (n := .element i tag as (before ++ m :: after)) rfl hsuits
  rwa [Patch.act, Node.withChildren, ← hid, Node.map_replace_eq hnd] at hcourse

theorem course_replacements [DecidableEq P] {o n : Node P} (h : Revision w known live o n)
    (parent : Option NodeId) :
    (o.SameShape n → Course w (merge (stripped live) o n) (node parent o n).replacements
        (merge arrive o n))
      ∧ ∀ p ∈ (node parent o n).replacements, ∀ x ∈ p.touches w, Reach w o n x := by
  induction h using Revision.induct generalizing parent with
  | texts i s u h =>
    have hnil : (node parent (.text i s : Node P) (.text i u)).replacements = [] := by
      rw [node_texts]
      split <;> rfl
    rw [hnil, merge_texts]
    exact ⟨fun _ => .nil _, fun _ hp => absurd hp List.not_mem_nil⟩
  | apart o n h hs =>
    refine ⟨fun hsame => absurd hsame hs, fun p hp => ?_⟩
    rw [node_apart parent hs] at hp
    obtain rfl := List.mem_singleton.mp hp
    exact touches_replacement
  | inPlace i tag as bs cs ds h hrev ih =>
    have hreplacements : (node parent (.element i tag as cs) (.element i tag bs ds)).replacements
        = (couples cs ds).flatMap fun q => (node (some i) q.1 q.2).replacements := by
      rw [node_inPlace parent i i tag as bs cs h.nodup_new]
      simp [Changes.join, List.flatMap_map]
    have hmem : ∀ q, q ∈ couples cs ds ↔ q ∈ partners cs ds := fun q =>
      (mem_couples_iff h.nodup_old).trans (mem_partners_iff h.nodup_new).symm
    rw [hreplacements]
    refine ⟨fun _ => ?_, fun p hp x hx => ?_⟩
    · rw [merge_inPlace, merge_inPlace]
      refine Course.forest
        (fun r hr => id_merge (fun o _ _ => id_strip o) (hrev r hr).id_eq)
        (fun r hr => id_merge (fun _ _ hid => hid.symm) (hrev r hr).id_eq)
        (nodup_partners h.nodup_old) (nodup_couples h.nodup_new) (fun q hq => (hmem q).mp hq) ?_
        (fun _ _ => rfl) fun r hr hno => absurd ((hmem r).mpr hr) hno
      intro q hq before after hnd hsib
      have hq' := (hmem q).mp hq
      have hclear : ∀ x, Reach w q.1 q.2 x → x ∉ beside w i as before after := by
        refine fun x hx => h.not_mem_beside hq' hx (fun _ hy => Or.inl hy) fun m hm => ?_
        obtain ⟨r, hr, hrq, hmr⟩ := hsib m hm
        refine ⟨r, hr, hrq, ?_⟩
        rcases hmr with rfl | rfl
        · exact within_merge (fun _ _ => within_stripped) (hrev r hr)
        · exact within_merge (fun _ _ _ _ => within_of_mem_new) (hrev r hr)
      -- Below a couple of one shape there may be replacements; one of two shapes is replaced itself.
      by_cases hs : q.1.SameShape q.2
      · refine ((ih q hq' (some i)).1 hs).under fun p hp x hx => ?_
        exact hclear x ((ih q hq' (some i)).2 p hp x hx)
      · rw [node_apart _ hs, merge_apart hs, merge_apart hs]
        rw [merge_apart hs] at hnd
        exact course_replace (hrev q hq') (id_strip q.1) (marks_strip_subset q.1) hnd hclear
    · obtain ⟨q, hq, hpq⟩ := List.mem_flatMap.mp hp
      obtain ⟨hc, hd, -⟩ := (mem_couples_iff h.nodup_old).mp hq
      exact ((ih q ((hmem q).mp hq) (some i)).2 p hpq x hx).of_child hc hd

end Difference

end ViewLoop
