import ViewLoop.Proofs.Merging

/-!
# The passes that remove

First the children that no new child is coupled with go (`Difference.course_removals`). Then the
nodes go that are live at the end but stand in a tree that is about to be replaced and do not come
back with the replacement (`Difference.course_escapes`). Neither pass touches more than handlers of
the part that it works on.
-/

namespace ViewLoop

variable {P : Type} {w : Bool} {known : HandlerId → Prop} {live : List NodeId}

/-! ### Removing a child -/

namespace Patch

theorem target_removal (i : NodeId) (c : Node P) : (removal i c).target = some i := by
  unfold removal
  split <;> rfl

theorem act_removal (i : NodeId) (c n : Node P) :
    (removal i c).act n = n.withChildren (·.filter fun d => d.id ≠ c.id) := by
  unfold removal
  split <;> rfl

theorem suits_removal (i : NodeId) {c n : Node P} (hc : c ∈ n.children) :
    (removal i c).Suits w n := by
  unfold removal
  split
  · rename_i ht
    exact ⟨c, hc, rfl, ht⟩
  · rename_i ht
    exact ⟨hc, by simpa using ht⟩

theorem touches_removal (i : NodeId) (c : Node P) :
    (removal i c).touches w ⊆ c.handlerMarks w := by
  unfold removal
  split
  · exact List.nil_subset _
  · exact List.Subset.refl _

end Patch

/-- A mark of a child is not beside it, whatever remains of its siblings. -/
theorem not_mem_beside_of_old {i : NodeId} {tag : String} {as : List (Attribute P)}
    {cs before after : List (Node P)} (hn : ((Node.element i tag as cs).marks w).Nodup)
    {c : Node P} (hc : c ∈ cs) {x : Mark} (hx : x ∈ c.marks w)
    (hs : ∀ m ∈ before ++ after, ∃ r ∈ cs, r ≠ c ∧ m.marks w ⊆ r.marks w) :
    x ∉ beside w i as before after := by
  obtain ⟨pre, post, rfl⟩ := List.append_of_mem hc
  have hperm := Node.marks_child_perm (w := w) i tag as pre post c
  have hdis : x ∉ (Node.element i tag as (pre ++ post)).marks w :=
    List.disjoint_of_nodup_append (hperm.nodup_iff.mp hn) hx
  rw [Node.marks_element, List.mem_cons, List.mem_append, not_or, not_or] at hdis
  obtain ⟨h1, h2, h3⟩ := hdis
  have hsib : ∀ m ∈ before ++ after, x ∉ m.marks w := by
    intro m hm hxm
    obtain ⟨r, hr, hrc, hmr⟩ := hs m hm
    refine h3 (List.mem_flatMap.mpr ⟨r, ?_, hmr hxm⟩)
    rcases List.mem_append.mp hr with hr | hr
    · exact List.mem_append_left _ hr
    · rcases List.mem_cons.mp hr with rfl | hr
      · exact absurd rfl hrc
      · exact List.mem_append_right _ hr
  have hflat : ∀ l ⊆ before ++ after, x ∉ l.flatMap (Node.marks w) := by
    intro l hl hxl
    obtain ⟨m, hm, hxm⟩ := List.mem_flatMap.mp hxl
    exact hsib m (hl hm) hxm
  simp only [beside, List.mem_cons, List.mem_append, not_or]
  exact ⟨h1, h2, hflat _ (List.subset_append_left _ _), hflat _ (List.subset_append_right _ _)⟩

namespace Difference

/-! ### Children that go -/

theorem course_gone (i : NodeId) (tag : String) (as : List (Attribute P)) {cs gone : List (Node P)}
    (hg : gone ⊆ cs) (hn : (gone.map Node.id).Nodup) :
    Course w (.element i tag as cs) (gone.map (Patch.removal i))
      (.element i tag as (cs.filter fun c => c.id ∉ gone.map Node.id)) := by
  induction gone generalizing cs with
  | nil =>
    have : cs.filter (fun c => c.id ∉ ([] : List (Node P)).map Node.id) = cs :=
      List.filter_eq_self.mpr fun c _ => by simp
    rw [this]
    exact .nil _
  | cons c gone ih =>
    obtain ⟨hcg, hn⟩ := List.nodup_cons.mp hn
    have hc : c ∈ cs := hg List.mem_cons_self
    have hfirst : Course w (.element i tag as cs) [Patch.removal i c]
        (.element i tag as (cs.filter fun d => d.id ≠ c.id)) := by
      have h := Course.single (w := w) (n := .element i tag as cs) (Patch.target_removal i c)
        (Patch.suits_removal i hc)
      rwa [Patch.act_removal] at h
    have hsub : gone ⊆ cs.filter fun d => d.id ≠ c.id := by
      intro d hd
      have hne : d.id ≠ c.id := fun e => hcg (List.mem_map.mpr ⟨d, hd, e⟩)
      exact List.mem_filter.mpr ⟨hg (List.mem_cons_of_mem _ hd), by simpa using hne⟩
    have hrest := ih hsub hn
    have hfilter : (cs.filter fun d => d.id ≠ c.id).filter (fun d => d.id ∉ gone.map Node.id)
        = cs.filter fun d => d.id ∉ (c :: gone).map Node.id := by
      rw [List.filter_filter]
      refine List.filter_congr fun d _ => ?_
      rw [List.map_cons]
      by_cases h1 : d.id = c.id <;> by_cases h2 : d.id ∈ gone.map Node.id <;> simp [h1, h2]
    rw [hfilter] at hrest
    exact hfirst.append hrest

theorem course_siblingRemovals {i : NodeId} (tag : String) (as : List (Attribute P))
    {cs ds : List (Node P)} (hc : (cs.map Node.id).Nodup) :
    Course w (.element i tag as cs) (siblingRemovals i cs ds)
      (.element i tag as ((partners cs ds).map Prod.fst)) := by
  have hgone := departed_eq ds hc fun _ _ => List.not_mem_nil
  rw [siblingRemovals, hgone, map_fst_partners]
  have hsub : cs.filter (fun c => c.id ∉ ds.map Node.id) ⊆ cs := List.filter_sublist.subset
  have hcourse := course_gone (w := w) i tag as hsub (hc.sublist (List.filter_sublist.map _))
  have hfilter : (cs.filter fun c =>
        c.id ∉ (cs.filter fun c => c.id ∉ ds.map Node.id).map Node.id)
      = cs.filter fun c => c.id ∈ ds.map Node.id := by
    refine List.filter_congr fun c hcm => ?_
    have hiff : c.id ∈ (cs.filter fun c => c.id ∉ ds.map Node.id).map Node.id
        ↔ c.id ∉ ds.map Node.id := by
      constructor
      · intro h
        obtain ⟨d, hd, hid⟩ := List.mem_map.mp h
        have := (List.mem_filter.mp hd).2
        rw [hid] at this
        simpa using this
      · exact fun h => List.mem_map_of_mem (List.mem_filter.mpr ⟨hcm, by simpa using h⟩)
    simp only [hiff, not_not]
  rwa [hfilter] at hcourse

/-- Couples are changed one after another, each below what is beside it and remains of the old
tree. -/
theorem course_couples_of_old {i : NodeId} {tag : String} {as bs : List (Attribute P)}
    {cs ds : List (Node P)}
    (h : Revision w known live (.element i tag as cs) (.element i tag bs ds))
    {f g : Node P × Node P → Node P} {ps : Node P × Node P → List (Patch P)}
    (hf : ∀ q ∈ partners cs ds, (f q).id = q.1.id ∧ (f q).marks w ⊆ q.1.marks w)
    (hg : ∀ q ∈ partners cs ds, (g q).id = q.1.id ∧ (g q).marks w ⊆ q.1.marks w)
    (hcourse : ∀ q ∈ partners cs ds, Course w (f q) (ps q) (g q))
    (htouch : ∀ q ∈ partners cs ds, ∀ p ∈ ps q, p.touches w ⊆ q.1.handlerMarks w) :
    Course w (.element i tag as ((partners cs ds).map f)) ((couples cs ds).flatMap ps)
      (.element i tag as ((partners cs ds).map g)) := by
  have hmem : ∀ q, q ∈ couples cs ds ↔ q ∈ partners cs ds := fun q =>
    (mem_couples_iff h.nodup_old).trans (mem_partners_iff h.nodup_new).symm
  refine Course.forest (fun r hr => (hf r hr).1) (fun r hr => (hg r hr).1)
    (nodup_partners h.nodup_old) (nodup_couples h.nodup_new) (fun q hq => (hmem q).mp hq) ?_
    (fun _ _ => rfl) fun r hr hno => absurd ((hmem r).mpr hr) hno
  intro q hq before after _ hsib
  have hq' := (hmem q).mp hq
  have hc := ((mem_partners_iff h.nodup_new).mp hq').1
  refine (hcourse q hq').under fun p hp x hx => ?_
  have hxq := (Node.mem_handlerMarks_iff.mp (htouch q hq' p hp hx)).1
  refine not_mem_beside_of_old h.oldMarks hc hxq fun m hm => ?_
  obtain ⟨r, hr, hrq, hmr⟩ := hsib m hm
  obtain ⟨hr1, hr2, hrid⟩ := (mem_partners_iff h.nodup_new).mp hr
  obtain ⟨-, hq2, hqid⟩ := (mem_partners_iff h.nodup_new).mp hq'
  refine ⟨r.1, hr1, fun e => hrq ?_, ?_⟩
  · have h2 : r.2 = q.2 :=
      List.inj_on_of_nodup_map h.nodup_new hr2 hq2 (hrid.symm.trans ((congrArg Node.id e).trans hqid))
    exact Prod.ext e h2
  · rcases hmr with rfl | rfl
    · exact (hf r hr).2
    · exact (hg r hr).2

theorem touches_couples_subset {i : NodeId} {tag : String} {as bs : List (Attribute P)}
    {cs ds : List (Node P)}
    (h : Revision w known live (.element i tag as cs) (.element i tag bs ds))
    {ps : Node P × Node P → List (Patch P)}
    (htouch : ∀ q ∈ partners cs ds, ∀ p ∈ ps q, p.touches w ⊆ q.1.handlerMarks w) :
    ∀ p ∈ (couples cs ds).flatMap ps,
      p.touches w ⊆ (Node.element i tag as cs).handlerMarks w := by
  intro p hp x hx
  obtain ⟨q, hq, hpq⟩ := List.mem_flatMap.mp hp
  obtain ⟨hc, hd, hid⟩ := (mem_couples_iff h.nodup_old).mp hq
  have hq' := (mem_partners_iff h.nodup_new).mpr ⟨hc, hd, hid⟩
  obtain ⟨hxq, hh⟩ := Node.mem_handlerMarks_iff.mp (htouch q hq' p hpq hx)
  exact Node.mem_handlerMarks_iff.mpr
    ⟨Node.marks_subset_of_mem (Node.mem_subtrees_child _ _ _ hc) hxq, hh⟩

/-! ### The first pass -/

/-- After the first pass, nodes that cannot be changed in place stand as they were. -/
def stay (o _ : Node P) : Node P := o

theorem course_removals [DecidableEq P] {o n : Node P} (h : Revision w known live o n)
    (parent : Option NodeId) :
    Course w o (node parent o n).removals (merge stay o n)
      ∧ ∀ p ∈ (node parent o n).removals, p.touches w ⊆ o.handlerMarks w := by
  induction h using Revision.induct generalizing parent with
  | texts i s u h =>
    have hnil : (node parent (.text i s : Node P) (.text i u)).removals = [] := by
      rw [node_texts]
      split <;> rfl
    rw [hnil, merge_texts]
    exact ⟨.nil _, fun _ hp => absurd hp List.not_mem_nil⟩
  | apart o n h hs =>
    rw [node_apart parent hs, merge_apart hs]
    exact ⟨.nil _, fun _ hp => absurd hp List.not_mem_nil⟩
  | inPlace i tag as bs cs ds h hrev ih =>
    have hremovals : (node parent (.element i tag as cs) (.element i tag bs ds)).removals
        = siblingRemovals i cs ds
          ++ (couples cs ds).flatMap fun q => (node (some i) q.1 q.2).removals := by
      rw [node_inPlace parent i i tag as bs cs h.nodup_new]
      simp [Changes.join, List.flatMap_map]
    rw [hremovals, merge_inPlace]
    have hstay : ∀ q ∈ partners cs ds,
        (merge stay q.1 q.2).id = q.1.id ∧ (merge stay q.1 q.2).marks w ⊆ q.1.marks w :=
      fun q hq => ⟨id_merge (fun _ _ _ => rfl) (hrev q hq).id_eq,
        marks_merge_subset (fun _ _ => List.Subset.refl _) (hrev q hq)⟩
    -- The departed children go first; after that the couples are all that is left to descend into.
    refine ⟨(course_siblingRemovals tag as h.nodup_old).append ?_, fun p hp => ?_⟩
    · exact course_couples_of_old h (fun q _ => ⟨rfl, List.Subset.refl _⟩) hstay
        (fun q hq => (ih q hq (some i)).1) fun q hq => (ih q hq (some i)).2
    · rcases List.mem_append.mp hp with hp | hp
      · rw [siblingRemovals, departed_eq _ h.nodup_old fun _ _ => List.not_mem_nil] at hp
        obtain ⟨c, hc, rfl⟩ := List.mem_map.mp hp
        intro x hx
        obtain ⟨hxc, hh⟩ := Node.mem_handlerMarks_iff.mp (Patch.touches_removal i c hx)
        have hcs := Node.mem_subtrees_child i tag as (List.mem_filter.mp hc).1
        exact Node.mem_handlerMarks_iff.mpr ⟨Node.marks_subset_of_mem hcs hxc, hh⟩
      · exact touches_couples_subset h (fun q hq => (ih q hq (some i)).2) p hp

/-! ### Nodes that move out of a replaced tree -/

mutual

/-- The tree without the nodes below its root that are live at the end and do not come back. -/
def strip (live back : List NodeId) : Node P → Node P
  | .element i tag as cs => .element i tag as (stripForest live back cs)
  | .text i s => .text i s

def stripForest (live back : List NodeId) : List (Node P) → List (Node P)
  | [] => []
  | c :: cs =>
    if c.id ∈ live ∧ c.id ∉ back then stripForest live back cs
    else strip live back c :: stripForest live back cs

end

variable {back : List NodeId}

theorem id_strip (n : Node P) : (strip live back n).id = n.id := by
  cases n <;> rfl

theorem mem_stripForest {cs : List (Node P)} {m : Node P} (h : m ∈ stripForest live back cs) :
    ∃ c ∈ cs, m = strip live back c ∧ (c.id ∈ live → c.id ∈ back) := by
  induction cs with
  | nil => exact absurd h List.not_mem_nil
  | cons c cs ih =>
    have hrest : m ∈ stripForest live back cs →
        ∃ d ∈ c :: cs, m = strip live back d ∧ (d.id ∈ live → d.id ∈ back) := by
      intro hm
      obtain ⟨d, hd, hmd⟩ := ih hm
      exact ⟨d, List.mem_cons_of_mem _ hd, hmd⟩
    rw [stripForest] at h
    split at h
    · exact hrest h
    · rename_i hkeep
      rcases List.mem_cons.mp h with rfl | h
      · exact ⟨c, List.mem_cons_self, rfl, fun hl => by_contra fun hb => hkeep ⟨hl, hb⟩⟩
      · exact hrest h

theorem marks_strip_subset (n : Node P) : (strip live back n).marks w ⊆ n.marks w := by
  induction n with
  | text i s => exact List.Subset.refl _
  | element i tag as cs ih =>
    rw [strip, Node.marks_element, Node.marks_element]
    refine List.cons_subset_cons _ (List.append_subset.mpr
      ⟨List.subset_append_left _ _, fun x hx => List.mem_append_right _ ?_⟩)
    obtain ⟨m, hm, hxm⟩ := List.mem_flatMap.mp hx
    obtain ⟨c, hc, rfl, -⟩ := mem_stripForest hm
    exact List.mem_flatMap.mpr ⟨c, hc, ih c hc hxm⟩

/-- What is left of a stripped tree and is live at the end comes back. -/
theorem mem_ids_strip {n : Node P} (hroot : n.id ∈ live → n.id ∈ back) :
    ∀ x ∈ (strip live back n).ids, x ∈ live → x ∈ back := by
  induction n with
  | text i s =>
    intro x hx hlive
    rw [strip, Node.ids_text, List.mem_singleton] at hx
    subst hx
    exact hroot hlive
  | element i tag as cs ih =>
    intro x hx hlive
    rw [strip, Node.ids_element, List.mem_cons] at hx
    rcases hx with rfl | hx
    · exact hroot hlive
    · obtain ⟨m, hm, hxm⟩ := List.mem_flatMap.mp hx
      obtain ⟨c, hc, rfl, hkeep⟩ := mem_stripForest hm
      exact ih c hc hkeep x hxm hlive

/-- Children are stripped from left to right; those before are done. -/
theorem course_detachedFrom {i : NodeId} {tag : String} {as : List (Attribute P)}
    {cs : List (Node P)} (before : List (Node P))
    (hn : ((Node.element i tag as (before ++ cs)).marks w).Nodup)
    (ih : ∀ c ∈ cs, (c.marks w).Nodup → Course w c (detached live back c) (strip live back c)
      ∧ ∀ p ∈ detached live back c, p.touches w ⊆ c.handlerMarks w) :
    Course w (.element i tag as (before ++ cs)) (detachedFrom i live back cs)
      (.element i tag as (before ++ stripForest live back cs)) := by
  -- The children before are stripped already, so the induction is over what is to the right of them.
  induction cs generalizing before with
  | nil => exact .nil _
  | cons c cs ihcs =>
    have hperm := Node.marks_child_perm (w := w) i tag as before cs c
    have hdis := hperm.nodup_iff.mp hn
    have ih' := fun d hd => ih d (List.mem_cons_of_mem _ hd)
    rw [detachedFrom, stripForest]
    by_cases hgone : c.id ∈ live ∧ c.id ∉ back
    · rw [if_pos hgone, if_pos hgone]
      have hfirst := Course.single (w := w) (n := .element i tag as (before ++ c :: cs))
        (Patch.target_removal i c) (Patch.suits_removal i (by simp [Node.children]))
      rw [Patch.act_removal, Node.withChildren,
        Node.filter_id_ne (Node.nodup_children_of_marks hn)] at hfirst
      exact hfirst.append (ihcs before hdis.of_append_right ih')
    · rw [if_neg hgone, if_neg hgone]
      obtain ⟨hcourse, htouch⟩ := ih c List.mem_cons_self hdis.of_append_left
      have hfirst : Course w (.element i tag as (before ++ c :: cs)) (detached live back c)
          (.element i tag as (before ++ strip live back c :: cs)) := by
        refine hcourse.under fun p hp x hx => ?_
        refine not_mem_beside_of_old hn (by simp)
          (Node.mem_handlerMarks_iff.mp (htouch p hp hx)).1 fun m hm => ?_
        have hnd := Node.nodup_children_of_marks hn
        have hne : m ≠ c := by
          rintro rfl
          have h1 := hnd.of_map
          exact (List.nodup_middle.mp h1).notMem hm
        refine ⟨m, ?_, hne, List.Subset.refl _⟩
        rcases List.mem_append.mp hm with hm | hm
        · exact List.mem_append_left _ hm
        · exact List.mem_append_right _ (List.mem_cons_of_mem _ hm)
      -- the rest meets the child as it was stripped, whose marks must not repeat either
      have hnext := hfirst.nodup_marks hn
      have hrest := ihcs (before ++ [strip live back c])
        (by rwa [List.append_assoc, List.singleton_append]) ih'
      rw [List.append_assoc, List.append_assoc, List.singleton_append] at hrest
      exact hfirst.append hrest

theorem mem_detachedFrom {i : NodeId} {cs : List (Node P)} {p : Patch P}
    (h : p ∈ detachedFrom i live back cs) :
    ∃ c ∈ cs, (p = Patch.removal i c ∧ c.id ∈ live ∧ c.id ∉ back) ∨ p ∈ detached live back c := by
  induction cs with
  | nil => exact absurd h List.not_mem_nil
  | cons c cs ih =>
    rw [detachedFrom, List.mem_append] at h
    rcases h with h | h
    · refine ⟨c, List.mem_cons_self, ?_⟩
      split at h
      · rename_i hgoes
        exact Or.inl ⟨List.mem_singleton.mp h, hgoes⟩
      · exact Or.inr h
    · obtain ⟨d, hd, hp⟩ := ih h
      exact ⟨d, List.mem_cons_of_mem _ hd, hp⟩

theorem course_detached {n : Node P} (hn : (n.marks w).Nodup) :
    Course w n (detached live back n) (strip live back n)
      ∧ ∀ p ∈ detached live back n, p.touches w ⊆ n.handlerMarks w := by
  induction n with
  | text i s => exact ⟨.nil _, fun p hp => absurd hp List.not_mem_nil⟩
  | element i tag as cs ih =>
    have hsub : ∀ c ∈ cs, c.handlerMarks w ⊆ (Node.element i tag as cs).handlerMarks w := by
      intro c hc x hx
      obtain ⟨hxc, hh⟩ := Node.mem_handlerMarks_iff.mp hx
      exact Node.mem_handlerMarks_iff.mpr
        ⟨Node.marks_subset_of_mem (Node.mem_subtrees_child _ _ _ hc) hxc, hh⟩
    refine ⟨course_detachedFrom [] hn ih, fun p hp => ?_⟩
    obtain ⟨c, hc, hp⟩ := mem_detachedFrom hp
    rcases hp with ⟨rfl, -⟩ | hp
    · exact fun x hx => hsub c hc (Patch.touches_removal i c hx)
    · have hcn := Node.nodup_marks_of_mem hn (Node.mem_subtrees_child _ _ _ hc)
      exact fun x hx => hsub c hc ((ih c hc hcn).2 p hp hx)

/-! ### The second pass -/

/-- After the second pass, nodes that cannot be changed in place are stripped. -/
def stripped (live : List NodeId) (o n : Node P) : Node P := strip live n.ids o

theorem course_escapes [DecidableEq P] {o n : Node P} (h : Revision w known live o n)
    (parent : NodeId) :
    Course w (merge stay o n) ((node (some parent) o n).replacements.flatMap (escapes live))
        (merge (stripped live) o n)
      ∧ ∀ p ∈ (node (some parent) o n).replacements.flatMap (escapes live),
        p.touches w ⊆ o.handlerMarks w := by
  induction h using Revision.induct generalizing parent with
  | texts i s u h =>
    have hnil : (node (some parent) (.text i s : Node P) (.text i u)).replacements = [] := by
      rw [node_texts]
      split <;> rfl
    rw [hnil, merge_texts]
    exact ⟨.nil _, fun _ hp => absurd hp List.not_mem_nil⟩
  | apart o n h hs =>
    have hone : (node (some parent) o n).replacements.flatMap (escapes live)
        = detached live n.ids o := by
      rw [node_apart _ hs]
      simp [Changes.replacement, escapes]
    rw [hone, merge_apart hs, merge_apart hs]
    exact course_detached h.oldMarks
  | inPlace i tag as bs cs ds h hrev ih =>
    have hreplacements :
        (node (some parent) (.element i tag as cs) (.element i tag bs ds)).replacements.flatMap
            (escapes live)
          = (couples cs ds).flatMap fun q =>
            (node (some i) q.1 q.2).replacements.flatMap (escapes live) := by
      rw [node_inPlace _ i i tag as bs cs h.nodup_new]
      simp [Changes.join, List.flatMap_map, List.flatMap_assoc]
    rw [hreplacements, merge_inPlace, merge_inPlace]
    have hstay : ∀ q ∈ partners cs ds,
        (merge stay q.1 q.2).id = q.1.id ∧ (merge stay q.1 q.2).marks w ⊆ q.1.marks w :=
      fun q hq => ⟨id_merge (fun _ _ _ => rfl) (hrev q hq).id_eq,
        marks_merge_subset (fun _ _ => List.Subset.refl _) (hrev q hq)⟩
    have hstripped : ∀ q ∈ partners cs ds, (merge (stripped live) q.1 q.2).id = q.1.id
        ∧ (merge (stripped live) q.1 q.2).marks w ⊆ q.1.marks w :=
      fun q hq => ⟨id_merge (fun o _ _ => id_strip o) (hrev q hq).id_eq,
        marks_merge_subset (fun o _ => marks_strip_subset o) (hrev q hq)⟩
    exact ⟨course_couples_of_old h hstay hstripped (fun q hq => (ih q hq i).1)
      fun q hq => (ih q hq i).2, touches_couples_subset h fun q hq => (ih q hq i).2⟩

end Difference

end ViewLoop
